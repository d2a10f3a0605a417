import Wrkr.Lib.Paths

/-!
# Output files of a script

`write_output_files` takes the pairs that a `HandleSummary` hook returns, one after the other: the
path is checked, its parent directory created and the content written, and the first error ends the
loop. What was done for the pairs before it stays.

The platform's paths and its file system are parameters. A path is handed to the file system as its
components, which is also how `std` compares paths, and what is asked of the file system is kept as
a list of effects.
-/
namespace Wrkr.Core

open Wrkr.Lib

/-- The kinds of errors that the code tells apart. -/
inductive IoError
  | notFound
  | alreadyExists
  | other (code : Nat)
  deriving DecidableEq, Repr

/-- A file system with states `σ`. A failed `fs::write` may have truncated the file. -/
structure Disk (σ : Type) where
  isDir : σ → List Component → Bool
  mkdir : σ → List Component → Except IoError σ
  write : σ → List Component → String → σ × Except IoError Unit
  mkdir_existing : ∀ s p, isDir s p = true → ∃ e, mkdir s p = .error e ∧ e ≠ .notFound
  mkdir_keeps : ∀ s s' p q, mkdir s q = .ok s' → isDir s p = true → isDir s' p = true
  write_keeps : ∀ s p q content, isDir s p = true → isDir (write s q content).1 p = true

/-- What is done to the disk. -/
inductive Effect
  | createDir (path : List Component)
  | writeFile (path : List Component) (content : String)
  deriving DecidableEq, Repr

/-- Where it is done. -/
def Effect.path : Effect → List Component
  | .createDir path => path
  | .writeFile path _ => path

/-- The error of a path, or that of the disk. -/
inductive OutputError
  | invalidOutputPath (path : String)
  | io (e : IoError)
  deriving DecidableEq, Repr

/-- `Path::parent`: a root and a prefix have none. -/
def parent (path : List Component) : Option (List Component) :=
  match path.getLast? with
  | some (.normal _) | some .curDir | some .parentDir => some path.dropLast
  | _ => none

/-! ### The code -/

section Code

variable (rules : PathRules) {σ : Type} (disk : Disk σ)

def sanitizeLoop (clean : String) : List Component → Option String
  | [] => some clean
  | .curDir :: rest => sanitizeLoop clean rest
  | .normal p :: rest => sanitizeLoop (rules.push clean p) rest
  -- parent traversal, and any root or prefix
  | _ :: _ => none

/-- An absolute path is refused before its components are looked at, an empty one after. -/
def sanitizeRelativeOutputPath (rel : String) : Except OutputError String :=
  if rules.isAbsolute rel then .error (.invalidOutputPath rel)
  else
    match sanitizeLoop rules "" (rules.components rel) with
    | none => .error (.invalidOutputPath rel)
    | some clean => if clean = "" then .error (.invalidOutputPath rel) else .ok clean

/-- `fs::create_dir_all` for the first `n` components of the path: the directory itself if there is
where to put it, else what it is in and then the directory. -/
def createDirAll (path : List Component) : Nat → σ → σ × List Effect × Except IoError Unit
  | 0, s => (s, [], .ok ())
  | n + 1, s =>
    let here := path.take (n + 1)
    if parent here = none then (s, [], .ok ())
    else
      match disk.mkdir s here with
      | .ok s' => (s', [.createDir here], .ok ())
      | .error .notFound =>
        match createDirAll path n s with
        | (s', made, .error e) => (s', made, .error e)
        | (s', made, .ok ()) =>
          -- somebody else may have made it by now
          match disk.mkdir s' here with
          | .ok s'' => (s'', made ++ [.createDir here], .ok ())
          | .error e => if disk.isDir s' here then (s', made, .ok ()) else (s', made, .error e)
      | .error e => if disk.isDir s here then (s, [], .ok ()) else (s, [], .error e)

/-- The parent of a path without one is not created. -/
def createParent (path : List Component) (s : σ) : σ × List Effect × Except IoError Unit :=
  match parent path with
  | none => (s, [], .ok ())
  | some dir => createDirAll disk dir dir.length s

/-- The rest of the loop's body, for a path that has been checked. -/
def writeOutputFile (path : List Component) (content : String) (s : σ) :
    σ × List Effect × Except OutputError Unit :=
  match createParent disk path s with
  | (s', made, .error e) => (s', made, .error (.io e))
  | (s', made, .ok ()) =>
    ((disk.write s' path content).1, made ++ [.writeFile path content],
      (disk.write s' path content).2.mapError .io)

/-- The loop over the files: a path is checked when its turn comes, after the files before it have
been written. -/
def writeOutputFiles (base : String) :
    List (String × String) → σ → σ × List Effect × Except OutputError Unit
  | [], s => (s, [], .ok ())
  | (rel, content) :: files, s =>
    match sanitizeRelativeOutputPath rules rel with
    | .error e => (s, [], .error e)
    | .ok clean =>
      match writeOutputFile disk (rules.components (rules.push base clean)) content s with
      | (s', effects, .error e) => (s', effects, .error e)
      | (s', effects, .ok ()) =>
        let (s'', more, result) := writeOutputFiles base files s'
        (s'', effects ++ more, result)

/-- The check refuses the path. -/
def Rejected (rel : String) : Prop := ∃ e, sanitizeRelativeOutputPath rules rel = .error e

end Code

/-! ### A file system in memory -/

/-- The directories and the files; the empty path is the current directory. -/
structure Tree where
  dirs : List (List Component)
  files : List (List Component × String)
  deriving DecidableEq, Repr

def Tree.isDir (tree : Tree) (path : List Component) : Bool := path == [] || tree.dirs.contains path

/-- A disk that is a list of directories and files. A directory is only made where there is nothing
and in one that exists. -/
def memory : Disk Tree where
  isDir := Tree.isDir
  mkdir tree path :=
    if tree.isDir path ∨ path ∈ tree.files.map Prod.fst then .error .alreadyExists
    else if tree.isDir path.dropLast then .ok { tree with dirs := path :: tree.dirs }
    else .error .notFound
  write tree path content :=
    -- `EISDIR`
    if tree.isDir path then (tree, .error (.other 21))
    else if tree.isDir path.dropLast then
      ({ tree with files := (path, content) :: tree.files.filter (·.1 ≠ path) }, .ok ())
    else (tree, .error .notFound)
  mkdir_existing tree path exist := ⟨.alreadyExists, by simp [exist], by simp⟩
  mkdir_keeps tree tree' p path made exist := by
    split at made
    next => cases made
    next =>
      split at made
      next =>
        cases made
        simp only [Tree.isDir, Bool.or_eq_true, List.contains_cons] at exist ⊢
        exact exist.imp id .inr
      next => cases made
  write_keeps tree p path content exist := by
    split
    · exact exist
    · split <;> exact exist

/-! ### Rejection -/

section Rejection

variable {rules : PathRules} {σ : Type} {disk : Disk σ}

/-- The error has the path as it was given. -/
theorem rejected_names_path {rel : String} {e : OutputError}
    (rejected : sanitizeRelativeOutputPath rules rel = .error e) : e = .invalidOutputPath rel := by
  unfold sanitizeRelativeOutputPath at rejected
  split at rejected
  next =>
    cases rejected
    rfl
  next =>
    split at rejected
    next =>
      cases rejected
      rfl
    next =>
      split at rejected
      next =>
        cases rejected
        rfl
      next => cases rejected

variable (disk) in
/-- An accepted file is written, or an error of the file system is returned. -/
theorem writeOutputFile_acts (path : List Component) (content : String) (s : σ) :
    (∃ e, (writeOutputFile disk path content s).2.2 = .error (.io e)) ∨
      .writeFile path content ∈ (writeOutputFile disk path content s).2.1 ∧
        (writeOutputFile disk path content s).2.2 = .ok () := by
  unfold writeOutputFile
  split
  next e _ => exact .inl ⟨e, rfl⟩
  next s' made _ =>
    dsimp only
    cases (disk.write s' path content).2 with
    | error e => exact .inl ⟨e, rfl⟩
    | ok => exact .inr ⟨by simp, rfl⟩

variable (rules disk)

/-- If some path is invalid, the error says so and nothing was done. -/
def LeavesNothingBehind (base : String) (s : σ) (files : List (String × String)) : Prop :=
  (∃ file ∈ files, Rejected rules file.1) →
    (∃ rel, (writeOutputFiles rules disk base files s).2.2 = .error (.invalidOutputPath rel)) ∧
      (writeOutputFiles rules disk base files s).1 = s ∧
      (writeOutputFiles rules disk base files s).2.1 = []

/-- Files are left behind unless the first path of the list is invalid already. -/
theorem leavesNothingBehind_iff (base : String) (s : σ) (files : List (String × String)) :
    LeavesNothingBehind rules disk base s files ↔
      ((∃ file ∈ files, Rejected rules file.1) →
        ∃ first, files.head? = some first ∧ Rejected rules first.1) := by
  refine forall_congr' fun some => ?_
  cases files with
  | nil => simp at some
  | cons first files =>
    obtain ⟨rel, content⟩ := first
    simp only [List.head?_cons, Option.some.injEq, exists_eq_left']
    unfold writeOutputFiles
    cases checked : sanitizeRelativeOutputPath rules rel with
    | error e =>
      refine iff_of_true ⟨⟨rel, ?_⟩, rfl, rfl⟩ ⟨e, checked⟩
      rw [rejected_names_path checked]
    | ok clean =>
      have accepted : ¬Rejected rules rel := by
        rintro ⟨e, rejected⟩
        rw [checked] at rejected
        cases rejected
      -- the first file is written, or fails in a way that is not an invalid path
      refine iff_of_false ?_ accepted
      dsimp only
      have acts := writeOutputFile_acts disk (rules.components (rules.push base clean)) content s
      split
      next s' effects e stopped =>
        rw [stopped] at acts
        obtain ⟨e', failed⟩ := acts.resolve_right (by simp)
        rintro ⟨⟨rel', invalid⟩, -⟩
        cases failed
        cases invalid
      next s' effects stopped =>
        rw [stopped] at acts
        obtain ⟨written, -⟩ := acts.resolve_left (by simp)
        rintro ⟨-, -, none⟩
        rw [List.append_eq_nil_iff] at none
        rw [none.1] at written
        cases written

/-- The good file is written before the bad path is seen. -/
theorem good_file_left_behind :
    ¬LeavesNothingBehind unixPaths memory "out" { dirs := [[.normal "out"]], files := [] }
      [("a.txt", "first"), ("../b.txt", "second")] := by
  intro clean
  have nothing := (clean ⟨("../b.txt", "second"), by simp, .invalidOutputPath "../b.txt", by decide⟩).2.2
  revert nothing
  decide

end Rejection

/-! ### What an accepted path becomes -/

section Accepted

variable {rules : PathRules}

/-- The ordinary names among the components. -/
def names (path : List Component) : List String :=
  path.filterMap fun
    | .normal name => some name
    | _ => none

@[simp] theorem mem_names {path : List Component} {name : String} :
    name ∈ names path ↔ .normal name ∈ path := by
  simp only [names, List.mem_filterMap]
  constructor
  · rintro ⟨c, member, read⟩
    split at read
    next =>
      cases read
      exact member
    next => cases read
  · exact fun member => ⟨_, member, rfl⟩

/-- Ordinary names and single dots. -/
def Harmless (path : List Component) : Prop := ∀ c ∈ path, c = .curDir ∨ ∃ name, c = .normal name

theorem sanitizeLoop_iff {clean result : String} {path : List Component} :
    sanitizeLoop rules clean path = some result ↔
      Harmless path ∧ result = (names path).foldl rules.push clean := by
  induction path generalizing clean with
  | nil => simp [sanitizeLoop, Harmless, names, eq_comm]
  | cons c path ih =>
    cases c with
    | curDir => simp [sanitizeLoop, ih, Harmless, names]
    | normal name => simp [sanitizeLoop, ih, Harmless, names]
    | prefixed volume => simp [sanitizeLoop, Harmless]
    | rootDir => simp [sanitizeLoop, Harmless]
    | parentDir => simp [sanitizeLoop, Harmless]

/-- The names one after the other, or a drive that one of them brings in. -/
theorem push_names {rel : String} (found : List String)
    (inside : ∀ name ∈ found, .normal name ∈ rules.components rel) (clean : String)
    (relative : .rootDir ∉ rules.components clean) :
    ((∀ name ∈ found, rules.Plain name) ∧ rules.components (found.foldl rules.push clean) =
        rules.components clean ++ found.map .normal) ∨
      (∃ name ∈ found, ¬rules.Plain name) ∧
        ∃ v rest, rules.components (found.foldl rules.push clean) = .prefixed v :: rest ∧
          .rootDir ∉ rest := by
  induction found generalizing clean with
  | nil => exact .inl ⟨by simp, by simp⟩
  | cons name found ih =>
    have later := fun other member => inside other (List.mem_cons_of_mem name member)
    rw [List.foldl_cons]
    rcases PathRules.push_pushes relative (inside name (by simp)) with
      ⟨plain, pushed⟩ | ⟨drive, v, rest, pushed, rootless⟩
    · rcases ih later (rules.push clean name) (by simp [pushed, relative]) with
        ⟨all, path⟩ | ⟨⟨other, member, bad⟩, path⟩
      · exact .inl ⟨by simpa using ⟨plain, all⟩, by simp [path, pushed]⟩
      · exact .inr ⟨⟨other, by simp [member], bad⟩, path⟩
    -- this name replaces what was there; what follows is pushed onto the drive
    · refine .inr ⟨⟨name, by simp, drive⟩, ?_⟩
      rcases ih later (rules.push clean name) (by simp [pushed, rootless]) with
        ⟨-, path⟩ | ⟨-, path⟩
      · exact ⟨v, rest ++ found.map .normal, by simp [path, pushed], by simp [rootless]⟩
      · exact path

/-- The outcomes of an accepted path. -/
theorem sanitize_ok_iff {rel clean : String} :
    sanitizeRelativeOutputPath rules rel = .ok clean ↔
      rules.isAbsolute rel = false ∧ Harmless (rules.components rel) ∧
        names (rules.components rel) ≠ [] ∧
        clean = (names (rules.components rel)).foldl rules.push "" := by
  -- a cleaned path is empty only if no component is a name
  have empty : Harmless (rules.components rel) →
      ((names (rules.components rel)).foldl rules.push "" = "" ↔
        names (rules.components rel) = []) := by
    intro harmless
    constructor
    · intro none
      rcases push_names (names (rules.components rel)) (fun _ => mem_names.mp) ""
        (by simp [rules.components_empty]) with ⟨-, path⟩ | ⟨-, v, rest, path, -⟩
      · simpa [none, rules.components_empty] using path
      · simp [none, rules.components_empty] at path
    · intro none
      rw [none]
      rfl
  unfold sanitizeRelativeOutputPath
  cases absolute : rules.isAbsolute rel with
  | true => simp
  | false =>
    simp only [Bool.false_eq_true, if_false, true_and]
    cases checked : sanitizeLoop rules "" (rules.components rel) with
    | none =>
      refine iff_of_false (by simp) fun ⟨harmless, _, _⟩ => ?_
      rw [sanitizeLoop_iff.mpr ⟨harmless, rfl⟩] at checked
      cases checked
    | some result =>
      obtain ⟨harmless, rfl⟩ := sanitizeLoop_iff.mp checked
      simp only [ne_eq, ← empty harmless]
      split
      next none => simp [none]
      next some => simp [some, harmless, eq_comm]

theorem accepted_iff {rel : String} (relative : rules.isAbsolute rel = false) :
    (∃ clean, sanitizeRelativeOutputPath rules rel = .ok clean) ↔
      Harmless (rules.components rel) ∧ ∃ name, .normal name ∈ rules.components rel := by
  simp only [sanitize_ok_iff, relative, true_and, exists_and_left, exists_eq, and_true, ne_eq,
    List.eq_nil_iff_forall_not_mem, not_forall, not_not, mem_names]

/-- The path that is written, for an accepted one. -/
theorem accepted_path (base : rules.BaseDir) {rel clean : String}
    (accepted : sanitizeRelativeOutputPath rules rel = .ok clean) :
    ((∀ name, .normal name ∈ rules.components rel → rules.Plain name) ∧
        rules.components (rules.push base.path clean) = rules.components base.path ++
          (names (rules.components rel)).map .normal) ∨
      (∃ name, .normal name ∈ rules.components rel ∧ ¬rules.Plain name) ∧
        ∃ v rest, rules.components (rules.push base.path clean) = .prefixed v :: rest ∧
          .rootDir ∉ rest := by
  obtain ⟨-, -, -, rfl⟩ := sanitize_ok_iff.mp accepted
  -- the clean path is built by pushing the names onto an empty one
  rcases push_names (names (rules.components rel)) (fun _ => mem_names.mp) ""
    (by simp [rules.components_empty]) with ⟨plain, path⟩ | ⟨⟨name, member, bad⟩, v, rest, path, no⟩
  · rw [rules.components_empty, List.nil_append] at path
    refine .inl ⟨fun name member => plain name (mem_names.mpr member), ?_⟩
    rw [base.joins _ (by simp [path, PathRules.Ordinary]), path]
  · refine .inr ⟨⟨name, mem_names.mp member, bad⟩, v, rest, ?_, no⟩
    rw [rules.push_prefixed _ _ v rest path, path]

end Accepted

/-! ### Where the effects are -/

section Inside

variable {rules : PathRules} {σ : Type} {disk : Disk σ}

/-- The base directory and one or more ordinary names. -/
def Inside (base path : List Component) : Prop :=
  ∃ found : List String, found ≠ [] ∧ path = base ++ found.map .normal

/-- What a step leaves: the base directory is there, and the effects were inside it. -/
structure Keeps (disk : Disk σ) (base : List Component) (s : σ) (effects : List Effect) :
    Prop where
  exist : disk.isDir s base = true
  inside : ∀ effect ∈ effects, Inside base effect.path

theorem Keeps.none {base : List Component} {s : σ} (exist : disk.isDir s base = true) :
    Keeps disk base s [] :=
  ⟨exist, by simp⟩

theorem Keeps.mkdir {base here : List Component} {s s' : σ} {made : List Effect}
    (kept : Keeps disk base s made) (inside : Inside base here)
    (done : disk.mkdir s here = .ok s') : Keeps disk base s' (made ++ [.createDir here]) := by
  refine ⟨disk.mkdir_keeps s s' base here done kept.exist, fun effect member => ?_⟩
  rcases List.mem_append.mp member with earlier | last
  · exact kept.inside effect earlier
  · rw [List.mem_singleton.mp last]
    exact inside

/-- The directory that exists is not made again. -/
theorem createDirAll_existing {path : List Component} {n : Nat} {s : σ}
    (exist : disk.isDir s (path.take (n + 1)) = true) :
    createDirAll disk path (n + 1) s = (s, [], .ok ()) := by
  obtain ⟨e, refused, other⟩ := disk.mkdir_existing s _ exist
  rw [createDirAll, refused, exist]
  cases e with
  | notFound => exact absurd rfl other
  | alreadyExists => simp
  | other code => simp

/-- As long as the base directory exists, `create_dir_all` does not go above it. -/
theorem createDirAll_inside {base : List Component} (found : List String) {n : Nat}
    (above : base.length ≤ n) {s : σ} (exist : disk.isDir s base = true) :
    Keeps disk base (createDirAll disk (base ++ found.map .normal) n s).1
      (createDirAll disk (base ++ found.map .normal) n s).2.1 := by
  induction n with
  | zero => exact .none exist
  | succ n ih =>
    have here : (base ++ found.map Component.normal).take (n + 1) =
        base ++ (found.take (n + 1 - base.length)).map .normal := by
      rw [List.take_append, List.take_of_length_le above, List.map_take]
    -- down to the base, which is there, every directory is below it
    by_cases none : found.take (n + 1 - base.length) = []
    · rw [none, List.map_nil, List.append_nil] at here
      rw [createDirAll_existing (by rw [here]; exact exist)]
      exact .none exist
    · have below : base.length ≤ n := by
        by_contra above'
        exact none (by rw [show n + 1 - base.length = 0 by omega, List.take_zero])
      have inside : Inside base ((base ++ found.map Component.normal).take (n + 1)) :=
        ⟨_, none, here⟩
      have before := ih below
      rw [createDirAll]
      generalize (base ++ found.map Component.normal).take (n + 1) = here at inside
      split
      next => exact .none exist
      next =>
        split
        next s' done => exact (Keeps.none exist).mkdir inside done
        next =>
          split
          next s' made e ran =>
            rw [ran] at before
            exact before
          next s' made ran =>
            rw [ran] at before
            split
            next s'' done => exact before.mkdir inside done
            next => split <;> exact before
        next => split <;> exact .none exist

theorem parent_inside {base : List Component} {found : List String} (some : found ≠ []) :
    parent (base ++ found.map .normal) = .some (base ++ found.dropLast.map .normal) := by
  obtain ⟨before, last, rfl⟩ := (List.eq_nil_or_concat found).resolve_left some
  simp [parent, ← List.append_assoc]

/-- Everything that is created for a file below the base is below the base. -/
theorem writeOutputFile_inside {base : List Component} {found : List String} (some : found ≠ [])
    {s : σ} (exist : disk.isDir s base = true) (content : String) :
    Keeps disk base (writeOutputFile disk (base ++ found.map .normal) content s).1
      (writeOutputFile disk (base ++ found.map .normal) content s).2.1 := by
  -- the parent first, then the file in it
  have created := createDirAll_inside found.dropLast (n := (base ++
    found.dropLast.map Component.normal).length) (by simp) exist
  unfold writeOutputFile createParent
  rw [parent_inside some]
  dsimp only
  split
  next s' made e ran =>
    rw [ran] at created
    exact created
  next s' made ran =>
    rw [ran] at created
    refine ⟨disk.write_keeps _ _ _ _ created.exist, fun effect member => ?_⟩
    rcases List.mem_append.mp member with earlier | last
    · exact created.inside effect earlier
    · rw [List.mem_singleton.mp last]
      exact ⟨found, some, rfl⟩

/-- What the check says of the path of a file. -/
def accepts (rules : PathRules) (file : String × String) : Bool :=
  (sanitizeRelativeOutputPath rules file.1).isOk

/-- In the paths up to the first invalid one, no name begins with a drive. -/
def ReachedPlain (rules : PathRules) (files : List (String × String)) : Prop :=
  ∀ file ∈ files.takeWhile (accepts rules), ∀ name,
    .normal name ∈ rules.components file.1 → rules.Plain name

/-- Whatever the file system does, what is created or written is inside the base directory. -/
def StaysInside (base : rules.BaseDir) (files : List (String × String)) : Prop :=
  ∀ (σ : Type) (disk : Disk σ) (s : σ), disk.isDir s (rules.components base.path) = true →
    ∀ effect ∈ (writeOutputFiles rules disk base.path files s).2.1,
      Inside (rules.components base.path) effect.path

/-- Plain names stay below the base: whatever is pushed extends the path. -/
theorem staysInside_of_plain (base : rules.BaseDir) {files : List (String × String)}
    (plain : ReachedPlain rules files) : StaysInside base files := by
  intro σ disk s exist
  induction files generalizing s with
  | nil => simp [writeOutputFiles]
  | cons file files ih =>
    obtain ⟨rel, content⟩ := file
    rw [writeOutputFiles]
    cases checked : sanitizeRelativeOutputPath rules rel with
    | error e => simp
    | ok clean =>
      have reached : accepts rules (rel, content) = true := by
        rw [accepts, checked]
        rfl
      rw [ReachedPlain, List.takeWhile_cons_of_pos reached, List.forall_mem_cons] at plain
      -- pushed component by component onto the base, with no drive among them
      have path := ((accepted_path base checked).resolve_right
        fun ⟨⟨name, member, bad⟩, _⟩ => bad (plain.1 name member)).2
      obtain ⟨-, -, some, -⟩ := sanitize_ok_iff.mp checked
      have written := writeOutputFile_inside some exist content
      rw [← path] at written
      dsimp only
      split
      next s' effects e ran =>
        rw [ran] at written
        exact written.inside
      next s' effects ran =>
        rw [ran] at written
        intro effect member
        rcases List.mem_append.mp member with earlier | later
        · exact written.inside effect earlier
        · exact ih plain.2 s' written.exist effect later

/-- A file system that has every directory and takes every file. -/
def fullDisk : Disk Unit where
  isDir _ _ := true
  mkdir _ _ := .error .alreadyExists
  write _ _ _ := ((), .ok ())
  mkdir_existing _ _ _ := ⟨_, rfl, by simp⟩
  mkdir_keeps _ _ _ _ _ _ := rfl
  write_keeps _ _ _ _ _ := rfl

theorem fullDisk_created (path : List Component) :
    createParent fullDisk path () = ((), [], .ok ()) := by
  unfold createParent
  split
  next => rfl
  next dir _ =>
    cases dir.length with
    | zero => rfl
    | succ n => exact createDirAll_existing rfl

/-- There every accepted file is written. -/
theorem fullDisk_written (base : String) {files : List (String × String)}
    {file : String × String}
    (reached : file ∈ files.takeWhile (accepts rules)) :
    ∃ clean, sanitizeRelativeOutputPath rules file.1 = .ok clean ∧
      .writeFile (rules.components (rules.push base clean)) file.2 ∈
        (writeOutputFiles rules fullDisk base files ()).2.1 := by
  induction files with
  | nil => cases reached
  | cons first files ih =>
    obtain ⟨rel, content⟩ := first
    cases checked : sanitizeRelativeOutputPath rules rel with
    | error e =>
      -- the loop stops at a path that is not accepted, and so does `takeWhile`
      have refused : ¬accepts rules (rel, content) = true := by
        rw [accepts, checked]
        exact Bool.noConfusion
      rw [List.takeWhile_cons_of_neg refused] at reached
      cases reached
    | ok clean =>
      have accepted : accepts rules (rel, content) = true := by
        rw [accepts, checked]
        rfl
      rw [List.takeWhile_cons_of_pos accepted] at reached
      have ran : writeOutputFile fullDisk (rules.components (rules.push base clean)) content () =
          ((), [.writeFile (rules.components (rules.push base clean)) content], .ok ()) := by
        rw [writeOutputFile, fullDisk_created]
        rfl
      rw [writeOutputFiles, checked]
      simp only [ran]
      rcases List.mem_cons.mp reached with rfl | reached
      · exact ⟨clean, checked, by simp⟩
      · obtain ⟨clean', checked', written⟩ := ih reached
        exact ⟨clean', checked', by simp [written]⟩

/-- And the other way round: a name with a drive leaves the base, on a disk that writes it. -/
theorem plain_of_staysInside (base : rules.BaseDir) (absolute : rules.isAbsolute base.path = true)
    {files : List (String × String)} (inside : StaysInside base files) :
    ReachedPlain rules files := by
  intro file reached
  obtain ⟨clean, checked, written⟩ := fullDisk_written base.path reached
  rcases accepted_path base checked with ⟨plain, -⟩ | ⟨-, v, rest, path, rootless⟩
  · exact plain
  · obtain ⟨found, -, below⟩ := inside Unit fullDisk () rfl _ written
    have root := rules.root_of_absolute base.path absolute
    have member : Component.rootDir ∈ rules.components (rules.push base.path clean) := by
      rw [show rules.components (rules.push base.path clean) = _ from below]
      exact List.mem_append_left _ root
    simp [path, rootless] at member

/-- Which relative paths are accepted, and when the files stay inside the base directory: if no
name begins with a drive, and only then below an absolute base directory. -/
theorem output_files_inside (rules : PathRules) (base : rules.BaseDir) :
    (∀ rel, rules.isAbsolute rel = false →
      ((∃ clean, sanitizeRelativeOutputPath rules rel = .ok clean) ↔
        Harmless (rules.components rel) ∧ ∃ name, .normal name ∈ rules.components rel)) ∧
    (∀ files, ReachedPlain rules files → StaysInside base files) ∧
    (rules.isAbsolute base.path = true →
      ∀ files, StaysInside base files → ReachedPlain rules files) :=
  ⟨fun _ relative => accepted_iff relative, fun _ plain => staysInside_of_plain base plain,
    fun absolute _ inside => plain_of_staysInside base absolute inside⟩

/-- `./D:gone.txt` is accepted on Windows and is a file on another drive. -/
theorem drive_leaves_base :
    ¬StaysInside (pathBase true "C:\\work") [("./D:gone.txt", "text")] := by
  intro inside
  obtain ⟨found, -, below⟩ := inside Tree memory
    { dirs := [[.prefixed "C:", .rootDir, .normal "work"], [.prefixed "D:"]], files := [] }
    (by decide) (.writeFile [.prefixed "D:", .normal "gone.txt"] "text") (by decide)
  have base : (pathRules true).components (pathBase true "C:\\work").path =
      [.prefixed "C:", .rootDir, .normal "work"] := by decide
  rw [base] at below
  simp [Effect.path] at below

/-- On Unix nothing leaves the base directory. -/
theorem unix_output_files_inside (base : unixPaths.BaseDir) (files : List (String × String)) :
    StaysInside base files :=
  staysInside_of_plain base fun _ _ _ inside => unix_plain inside

end Inside

end Wrkr.Core

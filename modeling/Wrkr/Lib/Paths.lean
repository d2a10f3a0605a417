import Mathlib.Data.List.Basic

/-!
# Paths and their components

A path is text, and what it means is the list of its components. `PathRules` is what the platforms
have in common: how a path is read and what it is to push one onto another. An ordinary name is
read as itself when it stands alone, unless it begins with the name of a drive; then, as a path, it
has a prefix, and pushing it replaces what it is pushed onto.

`pathRules` are the rules of Unix and those of Windows without network, device and verbatim paths.
-/
namespace Wrkr.Lib

/-- `std::path::Component`. -/
inductive Component
  | prefixed (volume : String)
  | rootDir
  | curDir
  | parentDir
  | normal (name : String)
  deriving DecidableEq, Repr

/-- The laws are those of ordinary paths. Below a verbatim prefix of Windows a forward slash and a dot
are parts of names, so with such paths a name within a path need not be one by itself. -/
structure PathRules where
  components : String → List Component
  isAbsolute : String → Bool
  push : String → String → String
  components_empty : components "" = []
  root_of_absolute : ∀ p, isAbsolute p = true → .rootDir ∈ components p
  /-- A name within a path, as a path of its own. -/
  normal_again : ∀ p n, .normal n ∈ components p → components n = [.normal n] ∨
    ∃ v rest, components n = .prefixed v :: rest ∧ .rootDir ∉ rest
  push_normal : ∀ b n, .rootDir ∉ components b → components n = [.normal n] →
    components (push b n) = components b ++ [.normal n]
  push_prefixed : ∀ b p v rest, components p = .prefixed v :: rest → push b p = p

namespace PathRules

/-- Nothing but ordinary names. -/
def Ordinary (path : List Component) : Prop := ∀ c ∈ path, ∃ name, c = .normal name

/-- Read as a path, the name is itself. -/
def Plain (rules : PathRules) (name : String) : Prop := rules.components name = [.normal name]

/-- A directory to which ordinary paths can be joined. -/
structure BaseDir (rules : PathRules) where
  path : String
  joins : ∀ p, Ordinary (rules.components p) →
    rules.components (rules.push path p) = rules.components path ++ rules.components p

variable {rules : PathRules}

theorem push_pushes {b n : String} (relative : .rootDir ∉ rules.components b) {p : String}
    (inside : .normal n ∈ rules.components p) :
    (rules.Plain n ∧ rules.components (rules.push b n) = rules.components b ++ [.normal n]) ∨
      ¬rules.Plain n ∧ ∃ v rest, rules.components (rules.push b n) = .prefixed v :: rest ∧
        .rootDir ∉ rest := by
  rcases rules.normal_again p n inside with plain | ⟨v, rest, drive, rootless⟩
  · exact .inl ⟨plain, rules.push_normal b n relative plain⟩
  · refine .inr ⟨fun plain => ?_, v, rest, ?_, rootless⟩
    · rw [Plain, drive] at plain
      cases plain
    · rw [rules.push_prefixed b n v rest drive, drive]

end PathRules

/-! ### The rules of the platforms -/

section Text

variable (drives : Bool)

/-- `/`, and with drives `\` as well. -/
def isSep (c : Char) : Bool := c == '/' || (drives && c == '\\')

/-- The separator that `push` puts in. -/
def mainSep : Char := if drives then '\\' else '/'

/-- The drive that a path names, and the rest. -/
def splitDrive : List Char → List Char × List Char
  | c :: ':' :: rest => if drives && c.isAlpha then ([c, ':'], rest) else ([], c :: ':' :: rest)
  | p => ([], p)

/-- The text after the drive begins with a separator. -/
def hasRoot (p : List Char) : Bool := p.head?.any (isSep drives)

/-- Empty segments and dots within a path mean nothing. -/
def classify (segment : List Char) : Option Component :=
  if segment = [] ∨ segment = ['.'] then none
  else if segment = ['.', '.'] then some .parentDir
  else some (.normal (String.ofList segment))

/-- What comes before the segments: the root, or a leading dot. -/
def startOf (p : List Char) : List Component :=
  if hasRoot drives p then [.rootDir]
  else if (p.splitOnP (isSep drives)).head? = some ['.'] then [.curDir]
  else []

/-- The components of a path after its drive. -/
def body (p : List Char) : List Component :=
  startOf drives p ++ (p.splitOnP (isSep drives)).filterMap classify

/-- `Path::components`: the drive, if there is one, and then the rest. -/
def pathComponents (p : String) : List Component :=
  let (drive, rest) := splitDrive drives p.toList
  (if drive = [] then [] else [.prefixed (String.ofList drive)]) ++ body drives rest

/-- `Path::is_absolute`: with drives a root alone is not enough. -/
def pathIsAbsolute (p : String) : Bool :=
  let (drive, rest) := splitDrive drives p.toList
  hasRoot drives rest && (!drives || drive != [])

/-- `PathBuf::push`. -/
def pathPush (b p : String) : String :=
  let (drive, rest) := splitDrive drives b.toList
  if (splitDrive drives p.toList).1 ≠ [] ∨ pathIsAbsolute drives p then p
  else if hasRoot drives p.toList then String.ofList (drive ++ p.toList)
  else if rest ≠ [] ∧ rest.getLast?.all (fun c => !isSep drives c) then
    String.ofList (b.toList ++ mainSep drives :: p.toList)
  else String.ofList (b.toList ++ p.toList)

variable {drives}

/-- What splitting leaves has no separators. -/
theorem not_sep_of_segment {p segment : List Char} (member : segment ∈ p.splitOnP (isSep drives))
    {c : Char} (inside : c ∈ segment) : isSep drives c = false := by
  induction p generalizing segment with
  | nil =>
    rw [List.splitOnP_nil, List.mem_singleton] at member
    subst member
    cases inside
  | cons x p ih =>
    rw [List.splitOnP_cons_eq_if_modifyHead] at member
    split at member
    next =>
      rcases List.mem_cons.mp member with rfl | member
      · cases inside
      · exact ih member inside
    -- a character that is no separator joins the first segment
    next other =>
      cases segments : p.splitOnP (isSep drives) with
      | nil => simp [segments] at member
      | cons first rest =>
        rw [segments] at ih member
        rcases List.mem_cons.mp member with rfl | member
        · rcases List.mem_cons.mp inside with rfl | inside
          · simpa using other
          · exact ih (by simp) inside
        · exact ih (by simp [member]) inside

/-- The components that come from the segments. -/
def named (drives : Bool) (p : List Char) : List Component :=
  (p.splitOnP (isSep drives)).filterMap classify

theorem isSep_mainSep : isSep drives (mainSep drives) = true := by
  cases drives <;> decide

theorem sep_cases {c : Char} (sep : isSep drives c = true) : c = '/' ∨ c = '\\' := by
  simp only [isSep, Bool.or_eq_true, beq_iff_eq, Bool.and_eq_true] at sep
  exact sep.imp id And.right

variable (drives) in
theorem splitDrive_cases (p : List Char) :
    splitDrive drives p = ([], p) ∨
      ∃ c rest, p = c :: ':' :: rest ∧ splitDrive drives p = ([c, ':'], rest) := by
  unfold splitDrive
  split
  next c rest =>
    split
    · exact .inr ⟨c, rest, rfl, rfl⟩
    · exact .inl rfl
  next => exact .inl rfl

theorem splitDrive_join (p : List Char) :
    (splitDrive drives p).1 ++ (splitDrive drives p).2 = p := by
  rcases splitDrive_cases drives p with plain | ⟨c, rest, rfl, drive⟩
  · rw [plain]
    rfl
  · rw [drive]
    rfl

/-- Appending behind a separator changes no drive. -/
theorem splitDrive_append (b p : List Char) {s : Char} (sep : isSep drives s = true) :
    splitDrive drives (b ++ s :: p) =
      ((splitDrive drives b).1, (splitDrive drives b).2 ++ s :: p) := by
  match b with
  | [] =>
    have letter : s.isAlpha = false := by rcases sep_cases sep with rfl | rfl <;> decide
    cases p with
    | nil => rfl
    | cons c p =>
      simp only [List.nil_append, splitDrive]
      split
      next same =>
        cases same
        simp [letter]
      next => rfl
  -- a separator is no colon, so no drive comes up where the two texts meet
  | [c] =>
    have colon : s ≠ ':' := by rcases sep_cases sep with rfl | rfl <;> decide
    simp only [List.cons_append, List.nil_append, splitDrive]
    split
    next same => exact absurd (List.cons.inj (List.cons.inj same).2).1 colon
    next => rfl
  | c :: d :: b =>
    by_cases colon : d = ':'
    · subst colon
      simp only [List.cons_append, splitDrive]
      split <;> rfl
    · have plain (q : List Char) : splitDrive drives (c :: d :: q) = ([], c :: d :: q) := by
        rcases splitDrive_cases drives (c :: d :: q) with plain | ⟨_, _, same, -⟩
        · exact plain
        · exact absurd (List.cons.inj (List.cons.inj same).2).1 colon
      rw [List.cons_append, List.cons_append, plain, plain]
      rfl

theorem named_append (b p : List Char) {s : Char} (sep : isSep drives s = true) :
    named drives (b ++ s :: p) = named drives b ++ named drives p := by
  rw [named, List.splitOnP_append_cons b p sep, List.filterMap_append]
  rfl

theorem startOf_append (b p : List Char) {s : Char} (sep : isSep drives s = true) :
    startOf drives (b ++ s :: p) = startOf drives (b ++ [s]) := by
  have segments (q : List Char) :
      ((b ++ s :: q).splitOnP (isSep drives)).head? = (b.splitOnP (isSep drives)).head? := by
    rw [List.splitOnP_append_cons b q sep, List.head?_append]
    cases segments : b.splitOnP (isSep drives) with
    | nil => exact absurd segments (List.splitOnP_ne_nil _ _)
    | cons first rest => rfl
  have head (q : List Char) : hasRoot drives (b ++ s :: q) = hasRoot drives (b ++ [s]) := by
    cases b <;> rfl
  rw [startOf, startOf, segments, segments, head p]

/-- A separator at the end changes nothing of how a path begins. -/
theorem startOf_snoc {b : List Char} (some : b ≠ []) {s : Char} (sep : isSep drives s = true) :
    startOf drives (b ++ [s]) = startOf drives b := by
  have segments : ((b ++ [s]).splitOnP (isSep drives)).head? =
      (b.splitOnP (isSep drives)).head? := by
    rw [List.splitOnP_append_cons b [] sep, List.head?_append]
    cases segments : b.splitOnP (isSep drives) with
    | nil => exact absurd segments (List.splitOnP_ne_nil _ _)
    | cons first rest => rfl
  have head : hasRoot drives (b ++ [s]) = hasRoot drives b := by
    cases b with
    | nil => exact absurd rfl some
    | cons c b => rfl
  rw [startOf, startOf, segments, head]

theorem named_singleton_sep (b : List Char) {s : Char} (sep : isSep drives s = true) :
    named drives (b ++ [s]) = named drives b := by
  rw [named_append b [] sep]
  exact List.append_nil _

theorem pathComponents_text (p : String) :
    pathComponents drives p =
      (if (splitDrive drives p.toList).1 = [] then []
        else [.prefixed (String.ofList (splitDrive drives p.toList).1)]) ++
      (startOf drives (splitDrive drives p.toList).2 ++
        named drives (splitDrive drives p.toList).2) := rfl

theorem pathComponents_eq (p : List Char) :
    pathComponents drives (String.ofList p) =
      (if (splitDrive drives p).1 = [] then []
        else [.prefixed (String.ofList (splitDrive drives p).1)]) ++
      (startOf drives (splitDrive drives p).2 ++ named drives (splitDrive drives p).2) := by
  rw [pathComponents_text, String.toList_ofList]

/-- What stands after a separator is read for itself. -/
theorem pathComponents_append (b p : List Char) {s : Char} (sep : isSep drives s = true) :
    pathComponents drives (String.ofList (b ++ s :: p)) =
      pathComponents drives (String.ofList (b ++ [s])) ++ named drives p := by
  simp only [pathComponents_eq, splitDrive_append b _ sep, startOf_append _ p sep, named_append _ p sep,
    named_singleton_sep _ sep, List.append_assoc]

/-- A separator at the end is not read. -/
theorem pathComponents_snoc {b : List Char} (some : (splitDrive drives b).2 ≠ []) {s : Char}
    (sep : isSep drives s = true) :
    pathComponents drives (String.ofList (b ++ [s])) = pathComponents drives (String.ofList b) := by
  simp only [pathComponents_eq, splitDrive_append b _ sep, startOf_snoc some sep,
    named_singleton_sep _ sep]

variable (drives) in
/-- A path begins with the root, with `.`, or with neither. -/
theorem startOf_cases (p : List Char) :
    startOf drives p = [.rootDir] ∧ hasRoot drives p = true ∨
      hasRoot drives p = false ∧ (startOf drives p = [.curDir] ∨ startOf drives p = []) := by
  unfold startOf
  cases hasRoot drives p
  · refine .inr ⟨rfl, ?_⟩
    split
    next root => cases root
    next =>
      split
      · exact .inl rfl
      · exact .inr rfl
  · exact .inl ⟨rfl, rfl⟩

/-- A segment is nothing, `..`, or a name that is neither. -/
theorem classify_cases {segment : List Char} {c : Component} (some : classify segment = some c) :
    c = .parentDir ∨ segment ≠ [] ∧ segment ≠ ['.'] ∧ segment ≠ ['.', '.'] ∧
      c = .normal (String.ofList segment) := by
  unfold classify at some
  split at some
  next => cases some
  next empty =>
    rw [not_or] at empty
    split at some
    next =>
      cases some
      exact .inl rfl
    next up =>
      cases some
      exact .inr ⟨empty.1, empty.2, up, rfl⟩

theorem mem_named {p : List Char} {c : Component} (member : c ∈ named drives p) :
    c = .parentDir ∨ ∃ segment ∈ p.splitOnP (isSep drives), segment ≠ [] ∧ segment ≠ ['.'] ∧
      segment ≠ ['.', '.'] ∧ c = .normal (String.ofList segment) := by
  obtain ⟨segment, inside, read⟩ := List.mem_filterMap.mp member
  rcases classify_cases read with up | name
  · exact .inl up
  · exact .inr ⟨segment, inside, name⟩

/-- Where a component comes from. -/
theorem mem_pathComponents {p : String} {c : Component} (member : c ∈ pathComponents drives p) :
    ((splitDrive drives p.toList).1 ≠ [] ∧
        c = .prefixed (String.ofList (splitDrive drives p.toList).1)) ∨
      c = .rootDir ∨ c = .curDir ∨ c ∈ named drives (splitDrive drives p.toList).2 := by
  rw [pathComponents_text] at member
  rcases List.mem_append.mp member with drive | member
  · split at drive
    next => cases drive
    next some => exact .inl ⟨some, List.mem_singleton.mp drive⟩
  · rcases List.mem_append.mp member with start | member
    · rcases startOf_cases drives (splitDrive drives p.toList).2 with
        ⟨root, -⟩ | ⟨-, dot | none⟩
      · exact .inr (.inl (List.mem_singleton.mp (root ▸ start)))
      · exact .inr (.inr (.inl (List.mem_singleton.mp (dot ▸ start))))
      · rw [none] at start
        cases start
    · exact .inr (.inr (.inr member))

theorem drive_of_prefixed {p v : String} (member : .prefixed v ∈ pathComponents drives p) :
    (splitDrive drives p.toList).1 ≠ [] := by
  rcases mem_pathComponents member with ⟨some, -⟩ | root | dot | member
  · exact some
  · cases root
  · cases dot
  · rcases mem_named member with up | ⟨_, -, -, -, -, name⟩
    · cases up
    · cases name

/-- A path of ordinary names has neither drive nor root, and no leading dot. -/
theorem ordinary_text {p : String} (ordinary : PathRules.Ordinary (pathComponents drives p)) :
    splitDrive drives p.toList = ([], p.toList) ∧ hasRoot drives p.toList = false ∧
      startOf drives p.toList = [] := by
  rw [pathComponents_text] at ordinary
  have foreign {c : Component} (member : c ∈ startOf drives (splitDrive drives p.toList).2)
      (other : ∀ name, c ≠ .normal name) : False := by
    obtain ⟨name, normal⟩ := ordinary c (by simp [member])
    exact other name normal
  -- a drive would be a component of its own
  have plain : splitDrive drives p.toList = ([], p.toList) := by
    rcases splitDrive_cases drives p.toList with plain | ⟨c, rest, -, drive⟩
    · exact plain
    · rw [drive] at ordinary
      obtain ⟨name, normal⟩ := ordinary (.prefixed (String.ofList [c, ':'])) (by simp)
      cases normal
  rw [plain] at foreign
  rcases startOf_cases drives p.toList with ⟨root, -⟩ | ⟨rootless, dot | none⟩
  · exact (foreign (c := .rootDir) (by simp [root]) (by simp)).elim
  · exact (foreign (c := .curDir) (by simp [dot]) (by simp)).elim
  · exact ⟨plain, rootless, none⟩

theorem pathComponents_of_ordinary {p : String}
    (ordinary : PathRules.Ordinary (pathComponents drives p)) :
    pathComponents drives p = named drives p.toList := by
  obtain ⟨plain, -, start⟩ := ordinary_text ordinary
  rw [pathComponents_text, plain, start]
  rfl

/-- Ordinary names are appended, to whatever they are pushed onto. -/
theorem pathComponents_push (b : String) {p : String}
    (ordinary : PathRules.Ordinary (pathComponents drives p)) :
    pathComponents drives (pathPush drives b p) =
      pathComponents drives b ++ pathComponents drives p := by
  obtain ⟨plain, rootless, start⟩ := ordinary_text ordinary
  have relative : pathIsAbsolute drives p = false := by simp [pathIsAbsolute, plain, rootless]
  rw [pathComponents_of_ordinary ordinary]
  simp only [pathPush, plain, relative, rootless, ne_eq, not_true_eq_false, Bool.false_eq_true,
    or_self, if_false]
  split
  next gap =>
    rw [pathComponents_append _ _ isSep_mainSep, pathComponents_snoc gap.1 isSep_mainSep,
      String.ofList_toList]
  next closed =>
    -- without a separator between them the base is empty, a drive alone, or ends in one
    by_cases rest : (splitDrive drives b.toList).2 = []
    · rcases splitDrive_cases drives b.toList with whole | ⟨c, tail, text, drive⟩
      · have empty : b.toList = [] := by
          rw [whole] at rest
          exact rest
        rw [pathComponents_eq, pathComponents_text b, empty, List.nil_append, plain, start]
        rfl
      · rw [drive] at rest
        subst rest
        have both : splitDrive drives (b.toList ++ p.toList) = ([c, ':'], p.toList) := by
          rw [text] at drive ⊢
          simp only [List.cons_append, List.nil_append, splitDrive] at drive ⊢
          split at drive
          next isDrive => rw [if_pos isDrive]
          next => cases drive
        rw [pathComponents_eq, pathComponents_text b, both, drive, start]
        rfl
    · obtain ⟨inner, s, last⟩ := (List.eq_nil_or_concat _).resolve_left rest
      have sep : isSep drives s = true := by simpa [last] using closed
      have text : b.toList = (splitDrive drives b.toList).1 ++ inner ++ [s] := by
        rw [List.append_assoc, ← List.concat_eq_append, ← last, splitDrive_join]
      rw [text, List.append_assoc, List.singleton_append, pathComponents_append _ _ sep, ← text,
        String.ofList_toList]

theorem rootDir_iff (p : List Char) :
    .rootDir ∈ startOf drives p ++ named drives p ↔ hasRoot drives p = true := by
  have unnamed : Component.rootDir ∉ named drives p := by
    intro member
    rcases mem_named member with up | ⟨_, -, -, -, -, name⟩
    · cases up
    · cases name
  rcases startOf_cases drives p with ⟨start, root⟩ | ⟨rootless, start | start⟩
  · simp [start, root]
  · simp [start, rootless, unnamed]
  · simp [start, rootless, unnamed]

/-- A name that stands in a path, as a path. -/
theorem pathComponents_name {p : String} {name : String}
    (inside : .normal name ∈ pathComponents drives p) :
    pathComponents drives name = [.normal name] ∨
      ∃ v rest, pathComponents drives name = .prefixed v :: rest ∧ .rootDir ∉ rest := by
  have member : .normal name ∈ named drives (splitDrive drives p.toList).2 := by
    simpa using mem_pathComponents inside
  obtain ⟨segment, cut, some, dot, up, same⟩ := (mem_named member).resolve_left (by simp)
  cases same
  -- a segment has no separators, but it may begin with a drive
  have solid {c : Char} (here : c ∈ segment) : isSep drives c = false := not_sep_of_segment cut here
  have rootless {rest : List Char} (part : ∀ c ∈ rest, c ∈ segment) :
      hasRoot drives rest = false := by
    cases rest with
    | nil => rfl
    | cons c rest => exact solid (part c (by simp))
  rw [pathComponents_eq]
  rcases splitDrive_cases drives segment with plain | ⟨c, rest, rfl, drive⟩
  · have whole := List.splitOnP_eq_singleton (p := isSep drives) fun c here => solid here
    have start : startOf drives segment = [] := by
      simp [startOf, rootless fun _ here => here, whole, dot]
    have one : named drives segment = [.normal (String.ofList segment)] := by
      simp [named, whole, classify, some, dot, up]
    rw [plain, start, one]
    exact .inl rfl
  · rw [drive]
    refine .inr ⟨String.ofList [c, ':'], startOf drives rest ++ named drives rest, rfl, ?_⟩
    rw [rootDir_iff, rootless fun c here => by simp [here]]
    simp

variable (drives)

/-- The paths of both systems keep the rules. -/
def pathRules : PathRules where
  components := pathComponents drives
  isAbsolute := pathIsAbsolute drives
  push := pathPush drives
  components_empty := rfl
  root_of_absolute p absolute := by
    have root : hasRoot drives (splitDrive drives p.toList).2 = true :=
      ((Bool.and_eq_true _ _).mp absolute).1
    rw [pathComponents_text]
    exact List.mem_append_right _ ((rootDir_iff _).mpr root)
  normal_again _ _ inside := pathComponents_name inside
  push_normal b n _ plain := by
    rw [pathComponents_push b (fun c member => ⟨n, by simpa [plain] using member⟩), plain]
  push_prefixed b p v rest drive := if_pos (.inl (drive_of_prefixed (v := v) (by simp [drive])))

/-- Paths without drives. -/
def unixPaths : PathRules := pathRules false

/-- Paths with drives. -/
def windowsPaths : PathRules := pathRules true

def pathBase (path : String) : (pathRules drives).BaseDir where
  path := path
  joins _ ordinary := pathComponents_push path ordinary

/-- Without drives every name is plain. -/
theorem unix_plain {p name : String} (inside : .normal name ∈ unixPaths.components p) :
    unixPaths.Plain name := by
  rcases unixPaths.normal_again p name inside with plain | ⟨v, rest, drive, -⟩
  · exact plain
  · have first : .prefixed v ∈ pathComponents false name :=
      List.mem_of_mem_head? (by rw [show pathComponents false name = _ from drive]; rfl)
    refine absurd ?_ (drive_of_prefixed first)
    unfold splitDrive
    split <;> rfl

end Text

end Wrkr.Lib

import Mathlib.Data.List.Perm.Subperm
import Wrkr.Lib.Text

/-!
# The URL of an HTTP call

`request_impl` first adds the query parameters of the options to the URL of the call and then
resolves the result against the variable `BASE_URL`. Each of the two steps returns its argument as
it is when there is something it cannot parse: the first a relative URL, the second an absolute one.

The crate `url` is a parameter. What is relied on of it is that a URL survives its text, that
`append_pair` appends, and where the query of a joined URL comes from.
-/
namespace Wrkr.Lua.Http

open Wrkr.Lib

/-- The crate `url`, with URLs `Url`. The query pairs of a relative reference are `refPairs`; a
reference with neither path nor query is `bare`. -/
structure UrlCrate (Url : Type) where
  parse : String → Option Url
  toString : Url → String
  join : Url → String → Option Url
  queryPairs : Url → List (String × String)
  appendPair : Url → String × String → Url
  refPairs : String → List (String × String)
  bare : String → Bool
  parse_toString : ∀ u, parse (toString u) = some u
  append : ∀ u pair, queryPairs (appendPair u pair) = queryPairs u ++ [pair]
  /-- An absolute URL keeps its pairs when it is joined to another one. -/
  join_absolute : ∀ base s v u, parse s = some v → join base s = some u →
    (queryPairs v).Subperm (queryPairs u)
  /-- A bare reference has the query of the base, any other one its own. -/
  join_relative : ∀ base s u, parse s = none → join base s = some u →
    queryPairs u = if bare s then queryPairs base else refPairs s
  bare_pairs : ∀ s, bare s = true → refPairs s = []

/-- The options of a call; the timeout is in nanoseconds. -/
structure HttpRequestOptions where
  headers : List (String × String)
  params : List (String × String)
  timeout : Option Nat
  tags : List (String × String)
  name : Option String
  deriving DecidableEq, Repr

section Code

variable {Url : Type} (crate : UrlCrate Url)

def envGet (env : List (String × String)) (key : String) : Option String := env.lookup key

/-- `url.contains("://")`. -/
def hasScheme (url : String) : Bool := (Text.find [':', '/', '/'] url.toList).isSome

/-- A URL without a scheme is joined to the base URL, if there is one and both are fine. -/
def resolveBaseUrl (env : List (String × String)) (url : String) : String :=
  if hasScheme url then url
  else
    match envGet env "BASE_URL" with
    | none => url
    | some base =>
      match crate.parse base with
      | none => url
      | some baseUrl => ((crate.join baseUrl url).map crate.toString).getD url

/-- The parameters are appended to the query of a URL that can be parsed; any other one stays as it
is. -/
def applyParamsOwned (url : String) (params : List (String × String)) : String :=
  if params.isEmpty then url
  else
    match crate.parse url with
    | none => url
    | some u => crate.toString (params.foldl crate.appendPair u)

/-- The URL that is sent. -/
def requestUrl (env : List (String × String)) (url : String) (opts : HttpRequestOptions) : String :=
  resolveBaseUrl crate env (applyParamsOwned crate url opts.params)

/-- The pairs that a URL has before anything is added. -/
def givenPairs (url : String) : List (String × String) :=
  match crate.parse url with
  | some u => crate.queryPairs u
  | none => crate.refPairs url

/-- If what is sent is a valid URL, its query has every parameter and every pair that the URL had. -/
def KeepsParams (env : List (String × String)) (url : String) (opts : HttpRequestOptions) : Prop :=
  ∀ u, crate.parse (requestUrl crate env url opts) = some u →
    (opts.params ++ givenPairs crate url).Subperm (crate.queryPairs u)

/-- The base that a relative URL is resolved against. -/
def Resolves (env : List (String × String)) (url : String) (base : Url) : Prop :=
  hasScheme url = false ∧ (∃ text, envGet env "BASE_URL" = some text ∧ crate.parse text = some base) ∧
    (crate.join base url).isSome

end Code

variable {Url : Type} {crate : UrlCrate Url} {env : List (String × String)} {url : String}

theorem queryPairs_foldl (u : Url) (params : List (String × String)) :
    crate.queryPairs (params.foldl crate.appendPair u) = crate.queryPairs u ++ params := by
  induction params generalizing u with
  | nil => simp
  | cons pair params ih => simp [ih, crate.append]

variable (crate) in
/-- What is resolved is left as it is or joined to the base. -/
theorem resolveBaseUrl_cases (env : List (String × String)) (url : String) :
    ((¬∃ base, Resolves crate env url base) ∧ resolveBaseUrl crate env url = url) ∨
      ∃ base u, Resolves crate env url base ∧ crate.join base url = some u ∧
        resolveBaseUrl crate env url = crate.toString u := by
  unfold resolveBaseUrl Resolves
  cases hasScheme url with
  | true => exact .inl ⟨by simp, rfl⟩
  | false =>
    cases envGet env "BASE_URL" with
    | none => exact .inl ⟨by simp, rfl⟩
    | some text =>
      cases isBase : crate.parse text with
      | none => exact .inl ⟨by simp [isBase], by simp [isBase]⟩
      | some base =>
        cases joined : crate.join base url with
        | none => exact .inl ⟨by simp [isBase, joined], by simp [isBase, joined]⟩
        | some u =>
          refine .inr ⟨base, u, ⟨rfl, ⟨text, rfl, isBase⟩, by simp [joined]⟩, joined, ?_⟩
          simp [isBase, joined]

/-- Resolving does not lose pairs of a URL that can be parsed. -/
theorem resolved_keeps {v u : Url} (absolute : crate.parse url = some v)
    (sent : crate.parse (resolveBaseUrl crate env url) = some u) :
    (crate.queryPairs v).Subperm (crate.queryPairs u) := by
  rcases resolveBaseUrl_cases crate env url with ⟨-, same⟩ | ⟨base, w, -, joined, text⟩
  · rw [same, absolute] at sent
    cases sent
    exact .refl _
  · rw [text, crate.parse_toString] at sent
    cases sent
    exact crate.join_absolute base url v _ absolute joined

/-- The base is a matter of the environment alone. -/
theorem resolves_unique {base base' : Url} (first : Resolves crate env url base)
    (second : Resolves crate env url base') : base = base' := by
  obtain ⟨-, ⟨text, found, parsed⟩, -⟩ := first
  obtain ⟨-, ⟨text', found', parsed'⟩, -⟩ := second
  rw [found] at found'
  cases found'
  rw [parsed] at parsed'
  exact Option.some.inj parsed'

/-- A relative URL that is joined has its own pairs, or those of the base if it has no part. -/
theorem joined_pairs {base u : Url} (relative : crate.parse url = none)
    (joined : crate.join base url = some u) :
    crate.queryPairs u = if crate.bare url then crate.queryPairs base else givenPairs crate url := by
  rw [givenPairs, relative]
  exact crate.join_relative base url u relative joined

theorem given_of_bare (relative : crate.parse url = none) (bare : crate.bare url = true) :
    givenPairs crate url = [] := by
  rw [givenPairs, relative]
  exact crate.bare_pairs url bare

/-- Without parameters nothing can be lost. -/
theorem keepsParams_of_nil {opts : HttpRequestOptions} (none : opts.params = []) :
    KeepsParams crate env url opts := by
  intro u sent
  rw [requestUrl, none, applyParamsOwned, List.isEmpty_nil, if_pos rfl] at sent
  rw [none, List.nil_append]
  cases absolute : crate.parse url with
  | some v =>
    rw [givenPairs, absolute]
    exact resolved_keeps absolute sent
  | none =>
    rcases resolveBaseUrl_cases crate env url with ⟨-, same⟩ | ⟨base, w, -, joined, text⟩
    · rw [same, absolute] at sent
      cases sent
    · rw [text, crate.parse_toString] at sent
      cases sent
      rw [joined_pairs absolute joined]
      split
      next bare =>
        rw [given_of_bare absolute bare]
        exact List.nil_subperm
      next => exact .refl _

/-- An absolute URL keeps all of them. -/
theorem keepsParams_of_absolute {opts : HttpRequestOptions} {v : Url} (some : opts.params ≠ [])
    (absolute : crate.parse url = .some v) : KeepsParams crate env url opts := by
  intro u sent
  rw [requestUrl, applyParamsOwned, if_neg (by simpa using some), absolute] at sent
  have kept := resolved_keeps (crate.parse_toString _) sent
  rw [queryPairs_foldl] at kept
  rw [givenPairs, absolute]
  exact List.perm_append_comm.subperm.trans kept

/-- The parameters of an absolute URL arrive, those of a relative one do not: they are there only
if the URL has neither path nor query and they stand in the query of the base already. -/
theorem keepsParams_iff (env : List (String × String)) (url : String) (opts : HttpRequestOptions) :
    KeepsParams crate env url opts ↔
      opts.params = [] ∨ (crate.parse url).isSome ∨ ∀ base, Resolves crate env url base →
        crate.bare url = true ∧ opts.params.Subperm (crate.queryPairs base) := by
  by_cases none : opts.params = []
  · exact iff_of_true (keepsParams_of_nil none) (.inl none)
  cases relative : crate.parse url with
  | some v => exact iff_of_true (keepsParams_of_absolute none relative) (.inr (.inl rfl))
  | none =>
    simp only [none, Option.isSome_none, Bool.false_eq_true, false_or]
    have unchanged : requestUrl crate env url opts = resolveBaseUrl crate env url := by
      rw [requestUrl, applyParamsOwned, if_neg (by simpa using none), relative]
    unfold KeepsParams
    rw [unchanged]
    rcases resolveBaseUrl_cases crate env url with
      ⟨unresolved, same⟩ | ⟨base, w, resolves, joined, text⟩
    · rw [same, relative]
      exact iff_of_true (fun u sent => by cases sent)
        fun base resolves => absurd ⟨base, resolves⟩ unresolved
    · rw [text, crate.parse_toString]
      simp only [Option.some.injEq, forall_eq']
      rw [joined_pairs relative joined]
      have only (P : Url → Prop) : (∀ base', Resolves crate env url base' → P base') ↔ P base :=
        ⟨fun all => all base resolves, fun holds base' resolves' =>
          resolves_unique resolves resolves' ▸ holds⟩
      rw [only fun base => crate.bare url = true ∧ opts.params.Subperm (crate.queryPairs base)]
      by_cases bare : crate.bare url = true
      · simp [bare, given_of_bare relative bare]
      · simp only [bare, if_false, false_and, iff_false, Bool.false_eq_true]
        intro kept
        -- nothing fits beside the pairs that are there already
        have lengths := kept.length_le
        rw [List.length_append] at lengths
        exact none (List.eq_nil_of_length_eq_zero (by omega))

/-! ### URLs as text -/

def escapeChar (c : Char) : List Char :=
  if c = '%' then ['%', '2', '5'] else if c = '&' then ['%', '2', '6']
  else if c = '=' then ['%', '3', 'D'] else [c]

def escape (s : String) : List Char := s.toList.flatMap escapeChar

def unescape : List Char → List Char
  | '%' :: '2' :: '5' :: rest => '%' :: unescape rest
  | '%' :: '2' :: '6' :: rest => '&' :: unescape rest
  | '%' :: '3' :: 'D' :: rest => '=' :: unescape rest
  | c :: rest => c :: unescape rest
  | [] => []

/-- The escapes of the example are read back. -/
theorem unescape_escape (s : String) : unescape (escape s) = s.toList := by
  rw [escape]
  generalize s.toList = chars
  induction chars with
  | nil => rfl
  | cons c chars ih =>
    rw [List.flatMap_cons, escapeChar]
    split
    next percent => simp [unescape, ih, percent]
    next percent =>
      split
      next amp => simp [unescape, ih, amp]
      next =>
        split
        next equals => simp [unescape, ih, equals]
        next => simp [unescape, ih, percent]

theorem not_mem_escapeChar (x : Char) : '&' ∉ escapeChar x ∧ '=' ∉ escapeChar x := by
  unfold escapeChar
  split
  next => decide
  next =>
    split
    next => decide
    next amp =>
      split
      next => decide
      next equals => exact ⟨by simpa using Ne.symm amp, by simpa using Ne.symm equals⟩

theorem not_mem_escape (s : String) : '&' ∉ escape s ∧ '=' ∉ escape s := by
  constructor <;> intro member
  · obtain ⟨x, -, inside⟩ := List.mem_flatMap.mp member
    exact (not_mem_escapeChar x).1 inside
  · obtain ⟨x, -, inside⟩ := List.mem_flatMap.mp member
    exact (not_mem_escapeChar x).2 inside

/-- One part of a query. -/
def readPair (segment : List Char) : Option (String × String) :=
  if segment = [] then none
  else
    match Text.splitOnce '=' segment with
    | some (k, v) => some (String.ofList (unescape k), String.ofList (unescape v))
    | none => some (String.ofList (unescape segment), "")

/-- The pairs after the first question mark; empty segments are skipped. -/
def textPairs (text : List Char) : List (String × String) :=
  match Text.splitOnce '?' text with
  | none => []
  | some (_, query) => (query.splitOn '&').filterMap readPair

def writePair (pair : String × String) : List Char := escape pair.1 ++ '=' :: escape pair.2

/-- A pair that was written is one part, and it is read back. -/
theorem splitOn_writePair (pair : String × String) :
    ((writePair pair).splitOn '&').filterMap readPair = [pair] := by
  have solid : '&' ∉ writePair pair := by
    simp [writePair, (not_mem_escape _).1]
  have split : Text.splitOnce '=' (writePair pair) = some (escape pair.1, escape pair.2) :=
    Text.splitOnce_append (not_mem_escape _).2 _
  have some : writePair pair ≠ [] := by simp [writePair]
  rw [List.splitOn_eq_singleton solid]
  simp [readPair, split, some, unescape_escape]

/-- An appended pair comes last. -/
theorem textPairs_append (text : List Char) (pair : String × String) :
    textPairs (text ++ (if '?' ∈ text then '&' else '?') :: writePair pair) =
      textPairs text ++ [pair] := by
  split
  next query =>
    obtain ⟨before, after, rfl, absent⟩ := List.eq_append_cons_of_mem query
    rw [List.append_assoc, List.cons_append, textPairs, Text.splitOnce_append absent, textPairs,
      Text.splitOnce_append absent]
    simp only [List.splitOn_append_cons_self, List.filterMap_append, splitOn_writePair]
  next none =>
    rw [textPairs, Text.splitOnce_append none, textPairs, Text.splitOnce_eq_none.mpr none]
    exact splitOn_writePair pair

def isHttps (text : List Char) : Bool := ['h', 't', 't', 'p', 's', ':', '/', '/'].isPrefixOf text

theorem isHttps_append {text : List Char} (https : isHttps text = true) (more : List Char) :
    isHttps (text ++ more) = true :=
  List.isPrefixOf_iff_prefix.mpr
    ((List.isPrefixOf_iff_prefix.mp https).trans (List.prefix_append text more))

abbrev HttpsUrl := { text : List Char // isHttps text = true }

def parseHttps (s : String) : Option HttpsUrl :=
  if https : isHttps s.toList = true then some ⟨s.toList, https⟩ else none

/-- What is joined to a directory is a name. -/
def joinName (base : HttpsUrl) (s : String) : Option HttpsUrl :=
  if s.toList.all Char.isAlphanum && !s.isEmpty && base.val.getLast? == some '/' &&
      !base.val.contains '?' then
    some ⟨base.val ++ s.toList, isHttps_append base.property s.toList⟩
  else none

theorem textPairs_of_not_mem {text : List Char} (none : '?' ∉ text) : textPairs text = [] := by
  rw [textPairs, Text.splitOnce_eq_none.mpr none]

/-- Joining a name brings no pairs of its own. -/
theorem joinName_pairs {base u : HttpsUrl} {s : String} (joined : joinName base s = some u) :
    s.isEmpty = false ∧ textPairs s.toList = [] ∧ textPairs u.val = [] := by
  unfold joinName at joined
  split at joined
  next conditions =>
    cases joined
    simp only [Bool.and_eq_true, Bool.not_eq_true', List.all_eq_true, List.contains_iff_mem,
      ← Bool.not_eq_true] at conditions
    obtain ⟨⟨⟨letters, some⟩, -⟩, noQuery⟩ := conditions
    have none : '?' ∉ s.toList := fun member => absurd (letters _ member) (by decide)
    refine ⟨by simpa using some, textPairs_of_not_mem none, textPairs_of_not_mem ?_⟩
    simp [none, noQuery]
  next => cases joined

/-- URLs that begin with `https://`, as their text. -/
def httpsUrls : UrlCrate HttpsUrl where
  parse := parseHttps
  toString u := String.ofList u.val
  join base s := (parseHttps s).or (joinName base s)
  queryPairs u := textPairs u.val
  appendPair u pair :=
    ⟨u.val ++ (if '?' ∈ u.val then '&' else '?') :: writePair pair, isHttps_append u.property _⟩
  refPairs s := textPairs s.toList
  bare s := s.isEmpty
  parse_toString u := by simp [parseHttps, u.property]
  append u pair := textPairs_append u.val pair
  join_absolute base s v u parsed joined := by
    rw [parsed, Option.some_or] at joined
    cases joined
    exact .refl _
  join_relative base s u relative joined := by
    rw [relative, Option.none_or] at joined
    obtain ⟨some, pairs, pairs'⟩ := joinName_pairs joined
    rw [some, pairs, pairs']
    rfl
  bare_pairs s empty := by
    rw [String.isEmpty_iff.mp empty]
    rfl

/-- The parameter `a=1` of the relative URL `v1` is lost. -/
theorem relative_params_dropped :
    ¬KeepsParams httpsUrls [("BASE_URL", "https://example.com/api/")] "v1"
      { headers := [], params := [("a", "1")], timeout := none, tags := [], name := none } := by
  intro keeps
  have kept := (keeps ⟨"https://example.com/api/v1".toList, by decide⟩ (by decide)).length_le
  revert kept
  decide

end Wrkr.Lua.Http

import Mathlib.Data.List.DropRight
import Mathlib.Tactic.Common

/-!
# URLs with a host

The part of the URL Standard that reads an `http`, `https`, `ws` or `wss` URL: what is trimmed
and left out, where the authority ends, how the segments of a path are resolved, and where the
query and the fragment begin.  How a host and a port are read, and which characters of a query
or a path are percent-encoded, is a parameter.

## Main definitions

* `Url`, `Scheme` — a URL, and its scheme.
* `Url.Rules` — what the parser is given.
* `Url.cleaned`, `Url.authorityPart`, `Url.tailPart`, `Url.pathPart` — the parts of a text.
* `Url.segments`, `Url.walk`, `Url.resolve` — the segments of a path, and where they lead.
* `Url.Rules.parse` — the parser.

## Main results

* `Url.segments_append` — a path is split at each of its slashes.
* `Url.getLast_pathText` — segments have no slash, so a path ends with one just if its last
  segment is empty.
* `Url.Rules.parse_eq_some` — what is read.
-/

namespace Machine

/-- A scheme. -/
inductive Scheme where
  | http
  | https
  | ws
  | wss
  deriving DecidableEq, Repr

namespace Scheme

/-- The text of a scheme. -/
def name : Scheme → List Char
  | http => "http".toList
  | https => "https".toList
  | ws => "ws".toList
  | wss => "wss".toList

/-- The port of a URL that names none. -/
def defaultPort : Scheme → ℕ
  | http | ws => 80
  | https | wss => 443

end Scheme

/-- A URL; `η` is the type of hosts. -/
structure Url (η : Type) where
  scheme : Scheme
  host : η
  /-- The port, or the one of the scheme. -/
  port : ℕ
  /-- The path, with a slash before each segment. -/
  path : List Char
  query : Option (List Char)
  fragment : Option (List Char)
  deriving DecidableEq, Repr

namespace Url

variable {η : Type}

/-! ### Characters -/

/-- A control character or a space, which is trimmed at the ends. -/
def isEdge (c : Char) : Bool := c.toNat ≤ 32

/-- A tab or a line break, which is left out. -/
def isBreak (c : Char) : Bool := c == '\t' || c == '\n' || c == '\r'

/-- A slash of either kind. -/
def isSlash (c : Char) : Bool := c == '/' || c == '\\'

/-- A character that ends a path. -/
def isStop (c : Char) : Bool := c == '?' || c == '#'

/-- A character that ends an authority. -/
def isEnd (c : Char) : Bool := isSlash c || isStop c

/-! ### The parts of a text -/

/-- A text without what is trimmed at its end and what is left out. -/
def cleaned (rest : List Char) : List Char := (rest.rdropWhile isEdge).filter (!isBreak ·)

/-- The authority, in a clean text after the colon of its scheme: any slashes may be before
it. -/
def authorityPart (t : List Char) : List Char := (t.dropWhile isSlash).takeWhile (!isEnd ·)

/-- What is after the authority. -/
def tailPart (t : List Char) : List Char := (t.dropWhile isSlash).dropWhile (!isEnd ·)

/-- The path after the authority. -/
def pathPart (t : List Char) : List Char := (tailPart t).takeWhile (!isStop ·)

/-- What is after the path. -/
def afterPath (t : List Char) : List Char := (tailPart t).dropWhile (!isStop ·)

/-- The query that is after the path. -/
def queryPart (t : List Char) : Option (List Char) :=
  match afterPath t with
  | '?' :: rest => some (rest.takeWhile (· != '#'))
  | _ => none

/-- The fragment that is after the path and the query. -/
def fragmentPart (t : List Char) : Option (List Char) :=
  match (afterPath t).dropWhile (· != '#') with
  | [] => none
  | _ :: rest => some rest

/-! ### Percent-encoding -/

/-- The character as it is, or its bytes in hexadecimal. -/
def percentEncode (set : Char → Bool) (c : Char) : List Char :=
  if set c then
    (String.utf8EncodeChar c).flatMap fun b =>
      ['%', (Nat.digitChar (b.toNat / 16)).toUpper, (Nat.digitChar (b.toNat % 16)).toUpper]
  else [c]

theorem percentEncode_ne_nil (set : Char → Bool) (c : Char) : percentEncode set c ≠ [] := by
  rw [percentEncode]
  split
  · have hpos : 0 < (String.utf8EncodeChar c).length := by
      rw [String.length_utf8EncodeChar]
      exact c.utf8Size_pos
    obtain ⟨b, rest, hb⟩ := List.exists_cons_of_length_pos hpos
    rw [hb, List.flatMap_cons]
    exact List.cons_ne_nil _ _
  · exact List.cons_ne_nil _ _

theorem slash_ne_digit : ∀ n < 16, (Nat.digitChar n).toUpper ≠ '/' := by decide

/-- Only a slash is one. -/
theorem slash_notMem_percentEncode {set : Char → Bool} {c : Char} (h : c ≠ '/') :
    '/' ∉ percentEncode set c := by
  rw [percentEncode]
  split
  · rw [List.mem_flatMap]
    rintro ⟨b, -, hb⟩
    have hlt := b.toNat_lt
    simp only [List.mem_cons, List.not_mem_nil, or_false] at hb
    rcases hb with hb | hb | hb
    · exact absurd hb (by decide)
    · exact slash_ne_digit _ (by omega) hb.symm
    · exact slash_ne_digit _ (by omega) hb.symm
  · exact fun hmem => h (List.mem_singleton.mp hmem).symm

/-! ### Paths -/

/-- The segments of a path; a backslash is a slash. -/
def segments : List Char → List (List Char)
  | [] => []
  | _ :: path => path.splitOnP isSlash

/-- The segments that stand for the directory itself. -/
def singleDots : List (List Char) := [".", "%2e", "%2E"].map String.toList

/-- The segments that stand for the directory above. -/
def doubleDots : List (List Char) :=
  ["..", ".%2e", ".%2E", "%2e.", "%2E.", "%2e%2e", "%2e%2E", "%2E%2e", "%2E%2E"].map String.toList

/-- A segment that is no name. -/
def isDots (s : List Char) : Bool := singleDots.contains s || doubleDots.contains s

/-- One segment of a path. -/
def push (set : Char → Bool) (path : List (List Char)) (s : List Char) : List (List Char) :=
  if doubleDots.contains s then path.dropLast
  else if singleDots.contains s then path
  else path ++ [s.flatMap (percentEncode set)]

/-- The segments that a path leads along. -/
def walk (set : Char → Bool) (segments : List (List Char)) : List (List Char) :=
  segments.foldl (push set) []

/-- The segments of the path of a URL: it has one at least, and leads to a directory if it
ends with dots. -/
def resolve (set : Char → Bool) (segments : List (List Char)) : List (List Char) :=
  if segments.getLast?.all isDots then walk set segments ++ [[]] else walk set segments

/-- A path as text. -/
def pathText (path : List (List Char)) : List Char := path.flatMap ('/' :: ·)

/-! ### The parser -/

/-- What the parser is given: how a host and a port are read, if none is named by default, and
which characters are percent-encoded. -/
structure Rules (η : Type) where
  authority : ℕ → List Char → Option (η × ℕ)
  pathSet : Char → Bool
  querySet : Char → Bool
  fragmentSet : Char → Bool
  /-- A host is not empty, -/
  authority_nil : ∀ port, authority port [] = none
  /-- and neither a host nor a port ends with a control character or a space. -/
  authority_edge : ∀ port a c, isEdge c = true → authority port (a ++ [c]) = none
  /-- Letters and digits of a path are left as they are. -/
  pathSet_alphanum : ∀ c, c.isAlphanum = true → pathSet c = false

/-- Reads what is after the `://` of a URL. -/
def Rules.parse (rules : Rules η) (scheme : Scheme) (rest : List Char) : Option (Url η) :=
  let t := cleaned rest
  (rules.authority scheme.defaultPort (authorityPart t)).map fun found =>
    { scheme, host := found.1, port := found.2,
      path := pathText (resolve rules.pathSet (segments (pathPart t))),
      query := (queryPart t).map fun query => query.flatMap (percentEncode rules.querySet),
      fragment := (fragmentPart t).map fun fragment =>
        fragment.flatMap (percentEncode rules.fragmentSet) }

/-- What is read. -/
theorem Rules.parse_eq_some {rules : Rules η} {scheme : Scheme} {rest : List Char} {url : Url η} :
    rules.parse scheme rest = some url ↔ ∃ host port,
      rules.authority scheme.defaultPort (authorityPart (cleaned rest)) = some (host, port) ∧
      url =
        { scheme, host, port,
          path := pathText (resolve rules.pathSet (segments (pathPart (cleaned rest)))),
          query := (queryPart (cleaned rest)).map fun query =>
            query.flatMap (percentEncode rules.querySet),
          fragment := (fragmentPart (cleaned rest)).map fun fragment =>
            fragment.flatMap (percentEncode rules.fragmentSet) } := by
  rw [parse, Option.map_eq_some_iff]
  constructor
  · rintro ⟨⟨host, port⟩, hfound, rfl⟩
    exact ⟨host, port, hfound, rfl⟩
  · rintro ⟨host, port, hfound, rfl⟩
    exact ⟨(host, port), hfound, rfl⟩

/-! ### Trimming -/

section Cleaned

variable {rest : List Char}

/-- What is trimmed can be put back. -/
theorem filter_eq_cleaned_append (rest : List Char) : rest.filter (!isBreak ·) =
    cleaned rest ++ (rest.rtakeWhile isEdge).filter (!isBreak ·) := by
  rw [cleaned, ← List.filter_append, List.rdropWhile_append_rtakeWhile]

/-- Tabs and line breaks are left out in any place. -/
theorem cleaned_eq_filter (h : ∀ c ∈ rest.rtakeWhile isEdge, isBreak c = true) :
    cleaned rest = rest.filter (!isBreak ·) := by
  have hnone : (rest.rtakeWhile isEdge).filter (!isBreak ·) = [] := by
    rw [List.filter_eq_nil_iff]
    intro c hc
    rw [h c hc]
    decide
  rw [filter_eq_cleaned_append, hnone, List.append_nil]

/-- Nothing is trimmed off a text that ends with another character. -/
theorem cleaned_concat {c : Char} (h : isEdge c = false) :
    cleaned (rest ++ [c]) = (rest ++ [c]).filter (!isBreak ·) := by
  rw [cleaned, List.rdropWhile_concat_neg _ _ _ (by rw [h]; decide)]

end Cleaned

/-! ### Parts of a longer text -/

section Parts

variable {t x : List Char}

theorem takeWhile_append_stop {p : Char → Bool} (hx : x.takeWhile p = []) :
    (t ++ x).takeWhile p = t.takeWhile p ∧ (t ++ x).dropWhile p = t.dropWhile p ++ x := by
  have hdrop : x.dropWhile p = x := by
    have happend := List.takeWhile_append_dropWhile (p := p) (l := x)
    rwa [hx, List.nil_append] at happend
  induction t with
  | nil => exact ⟨hx, hdrop⟩
  | cons c t ih =>
    cases hc : p c with
    | true => simpa [hc] using ih
    | false => simp [hc]

theorem dropWhile_append_ne {p : Char → Bool} (h : t.dropWhile p ≠ []) :
    (t ++ x).dropWhile p = t.dropWhile p ++ x ∧ (t ++ x).takeWhile p = t.takeWhile p := by
  induction t with
  | nil => exact absurd rfl h
  | cons c t ih =>
    cases hc : p c with
    | true =>
      rw [List.dropWhile_cons_of_pos hc] at h
      simpa [hc] using ih h
    | false => simp [hc]

/-- A text that goes on with a slash has the authority it had. -/
theorem parts_append (h : t.dropWhile isSlash ≠ []) (hx : x.takeWhile (!isEnd ·) = []) :
    authorityPart (t ++ x) = authorityPart t ∧ tailPart (t ++ x) = tailPart t ++ x := by
  rw [authorityPart, tailPart, (dropWhile_append_ne h).1]
  exact takeWhile_append_stop hx

/-- There is neither a query nor a fragment, just if nothing begins one. -/
theorem query_fragment_none : queryPart t = none ∧ fragmentPart t = none ↔
    ∀ c ∈ tailPart t, isStop c = false := by
  have hsplit : pathPart t ++ afterPath t = tailPart t := List.takeWhile_append_dropWhile
  have hpath : ∀ c ∈ pathPart t, isStop c = false := by
    intro c hc
    simpa using List.mem_takeWhile_imp hc
  -- Behind the path stands nothing, or what begins a query or a fragment.
  cases hafter : afterPath t with
  | nil =>
    rw [hafter, List.append_nil] at hsplit
    rw [queryPart, fragmentPart, hafter, ← hsplit]
    exact iff_of_true ⟨rfl, rfl⟩ hpath
  | cons c rest =>
    have hstop : isStop c = true := by
      have hhead := List.head?_dropWhile_not (!isStop ·) (tailPart t)
      have hdrop : (tailPart t).dropWhile (!isStop ·) = c :: rest := hafter
      rw [hdrop] at hhead
      simpa using hhead
    refine iff_of_false ?_ fun hall => ?_
    · rw [queryPart, fragmentPart, hafter]
      rcases (by simpa [isStop] using hstop : c = '?' ∨ c = '#') with rfl | rfl
      · exact fun hnone => absurd hnone.1 (by simp)
      · exact fun hnone => absurd hnone.2 (by simp)
    · have hmem : c ∈ tailPart t := by
        rw [← hsplit, hafter]
        exact List.mem_append_right _ List.mem_cons_self
      have hnot := hall c hmem
      rw [hstop] at hnot
      cases hnot

/-- Where nothing begins a query or a fragment, all that is after the authority is the path. -/
theorem pathPart_eq (h : ∀ c ∈ tailPart t, isStop c = false) : pathPart t = tailPart t := by
  rw [pathPart, List.takeWhile_eq_self_iff]
  intro c hc
  rw [h c hc]
  rfl

end Parts

/-! ### Segments -/

section Segments

variable {set : Char → Bool} {path : List (List Char)} {s t y : List Char} {c : Char}

/-- **A path is split at each of its slashes.** -/
theorem segments_append (hc : isSlash c = true) :
    segments (t ++ c :: y) = segments t ++ y.splitOnP isSlash := by
  cases t with
  | nil => rfl
  | cons d t => exact List.splitOnP_append_cons t y hc

theorem segments_append_slashes (k : ℕ) :
    segments (t ++ List.replicate k '/') = segments t ++ List.replicate k [] := by
  induction k with
  | zero => rw [List.replicate_zero, List.replicate_zero, List.append_nil, List.append_nil]
  | succ k ih =>
    rw [List.replicate_succ', ← List.append_assoc, segments_append rfl, ih,
      List.splitOnP_nil, List.replicate_succ', List.append_assoc]

theorem walk_concat (l : List (List Char)) :
    walk set (l ++ [s]) = push set (walk set l) s := by
  rw [walk, List.foldl_concat]
  rfl

theorem push_of_not_dots (h : isDots s = false) :
    push set path s = path ++ [s.flatMap (percentEncode set)] := by
  obtain ⟨hsingle, hdouble⟩ := Bool.or_eq_false_iff.mp h
  rw [push, hdouble, hsingle]
  rfl

/-- Two paths that differ in one character that is no slash differ in their last segment. -/
theorem segments_concat (hne : t ≠ []) (hx : ∀ d ∈ y, isSlash d = false) :
    ∃ l s, segments t = l ++ [s] ∧ segments (t ++ y) = l ++ [s ++ y] := by
  obtain ⟨c, t, rfl⟩ := List.exists_cons_of_ne_nil hne
  simp only [segments, List.cons_append]
  clear hne
  induction t with
  | nil => exact ⟨[], [], rfl, List.splitOnP_eq_singleton hx⟩
  | cons d t ih =>
    obtain ⟨l, s, ht, hty⟩ := ih
    rw [List.cons_append, List.splitOnP_cons_eq_if_modifyHead,
      List.splitOnP_cons_eq_if_modifyHead, ht, hty]
    split
    · exact ⟨[] :: l, s, rfl, rfl⟩
    · cases l with
      | nil => exact ⟨[], d :: s, rfl, rfl⟩
      | cons a l => exact ⟨(d :: a) :: l, s, rfl, rfl⟩

end Segments

/-! ### Resolved paths -/

section Paths

variable {set : Char → Bool} {l path : List (List Char)} {s t : List Char}

/-- No segment has a slash. -/
def Slashless (path : List (List Char)) : Prop := ∀ s ∈ path, '/' ∉ s

theorem slashless_segments (t : List Char) : Slashless (segments t) := by
  cases t with
  | nil => exact fun s hs => absurd hs List.not_mem_nil
  | cons c t =>
    rw [segments]
    induction t with
    | nil =>
      intro s hs
      rw [List.splitOnP_nil, List.mem_singleton] at hs
      rw [hs]
      exact List.not_mem_nil
    | cons d t ih =>
      rw [List.splitOnP_cons_eq_if_modifyHead]
      split
      · exact List.forall_mem_cons.mpr ⟨List.not_mem_nil, ih⟩
      · next hd =>
        obtain ⟨a, rest, ha⟩ := List.exists_cons_of_ne_nil (List.splitOnP_ne_nil isSlash t)
        rw [ha] at ih ⊢
        obtain ⟨hfirst, hrest⟩ := List.forall_mem_cons.mp ih
        refine List.forall_mem_cons.mpr ⟨fun hmem => ?_, hrest⟩
        rcases List.mem_cons.mp hmem with rfl | hmem
        · exact hd rfl
        · exact hfirst hmem

theorem slashless_push (hpath : Slashless path) (hs : '/' ∉ s) : Slashless (push set path s) := by
  rw [push]
  split
  · exact fun a ha => hpath a ((List.dropLast_sublist path).subset ha)
  · split
    · exact hpath
    · intro a ha
      rcases List.mem_append.mp ha with ha | ha
      · exact hpath a ha
      · rw [List.mem_singleton.mp ha, List.mem_flatMap]
        rintro ⟨c, hc, hmem⟩
        exact slash_notMem_percentEncode (fun heq => hs (heq ▸ hc)) hmem

/-- Resolved segments have no slash. -/
theorem slashless_walk (h : Slashless l) : Slashless (walk set l) := by
  induction l using List.reverseRecOn with
  | nil => exact fun s hs => absurd hs List.not_mem_nil
  | append_singleton l s ih =>
    rw [walk_concat]
    exact slashless_push (ih fun a ha => h a (List.mem_append_left _ ha))
      (h s (List.mem_append_right _ (List.mem_singleton_self s)))

theorem pathText_append (l path : List (List Char)) :
    pathText (l ++ path) = pathText l ++ pathText path := List.flatMap_append

theorem pathText_singleton (s : List Char) : pathText [s] = '/' :: s := List.append_nil _

/-- A segment makes a path longer by its own length at most. -/
theorem length_pathText_push (set : Char → Bool) (path : List (List Char)) (s : List Char) :
    (pathText (push set path s)).length ≤
      (pathText path).length + (s.flatMap (percentEncode set)).length + 1 := by
  rw [push]
  split
  · cases path using List.reverseRecOn with
    | nil => simp [pathText]
    | append_singleton path a =>
      rw [List.dropLast_concat, pathText_append, List.length_append]
      omega
  · split
    · omega
    · rw [pathText_append, pathText_singleton, List.length_append, List.length_cons]
      omega

/-- A path ends with a slash just if its last segment is empty. -/
theorem getLast_pathText (h : Slashless path) :
    (pathText path).getLast? = some '/' ↔ path.getLast? = some [] := by
  cases path using List.reverseRecOn with
  | nil => simp [pathText]
  | append_singleton path s =>
    have hs := h s (List.mem_append_right _ (List.mem_singleton_self s))
    rw [pathText_append, List.getLast?_concat, Option.some.injEq]
    rw [pathText_singleton]
    cases s using List.reverseRecOn with
    | nil => simp
    | append_singleton s c =>
      have hc : c ≠ '/' := by
        rintro rfl
        exact hs (List.mem_append_right _ (List.mem_singleton_self _))
      rw [← List.cons_append, ← List.append_assoc, List.getLast?_concat]
      simp [hc]

theorem walk_append_empty (l : List (List Char)) (k : ℕ) :
    walk set (l ++ List.replicate k []) = walk set l ++ List.replicate k [] := by
  induction k with
  | zero => rw [List.replicate_zero, List.append_nil, List.append_nil]
  | succ k ih =>
    rw [List.replicate_succ', ← List.append_assoc, walk_concat, ih, push_of_not_dots (by decide),
      List.append_assoc]
    rfl

/-- Slashes at the end of a path, and the one that dots leave, add nothing but slashes. -/
theorem exists_resolve (set : Char → Bool) (l : List (List Char)) (k : ℕ) :
    ∃ m, resolve set (l ++ List.replicate k []) = walk set l ++ List.replicate m [] := by
  rw [resolve, walk_append_empty]
  split
  · exact ⟨k + 1, by rw [List.replicate_succ', List.append_assoc]⟩
  · exact ⟨k, rfl⟩

theorem resolve_concat (h : isDots s = false) :
    resolve set (l ++ [s]) = walk set l ++ [s.flatMap (percentEncode set)] := by
  rw [resolve, List.getLast?_concat, walk_concat, push_of_not_dots h, if_neg]
  rw [Option.all_some, h]
  decide

theorem pathText_replicate (k : ℕ) : pathText (List.replicate k []) = List.replicate k '/' := by
  induction k with
  | zero => rfl
  | succ k ih =>
    rw [List.replicate_succ, List.replicate_succ, ← ih]
    rfl

theorem rdropWhile_slashes (t : List Char) (k : ℕ) :
    (t ++ List.replicate k '/').rdropWhile (· == '/') = t.rdropWhile (· == '/') := by
  induction k with
  | zero => rw [List.replicate_zero, List.append_nil]
  | succ k ih =>
    rw [List.replicate_succ', ← List.append_assoc, List.rdropWhile_concat_pos _ _ _ (by decide), ih]

/-- **A path without the slashes at its end** is where its segments lead, without the slashes
at the end of that. -/
theorem rdropWhile_resolve (set : Char → Bool) (t : List Char) (k : ℕ) :
    (pathText (resolve set (segments (t ++ List.replicate k '/')))).rdropWhile (· == '/') =
      (pathText (walk set (segments t))).rdropWhile (· == '/') := by
  obtain ⟨m, hm⟩ := exists_resolve set (segments t) k
  rw [segments_append_slashes, hm, pathText_append, pathText_replicate, rdropWhile_slashes]

end Paths

/-! ### One segment below -/

section Child

variable {rules : Rules η} {scheme scheme' : Scheme} {f name : List Char} {k : ℕ} {url : Url η}

/-- A letter or a digit is no character that the parser looks at. -/
theorem alphanum_facts {c : Char} (h : c.isAlphanum = true) :
    isEdge c = false ∧ isBreak c = false ∧ isSlash c = false ∧ isStop c = false := by
  have hne (d : Char) (hd : d.isAlphanum = false) : c ≠ d := by
    rintro rfl
    rw [h] at hd
    cases hd
  have hedge : ∀ n ≤ 32, (Char.ofNat n).isAlphanum = false := by decide
  refine ⟨?_, ?_, ?_, ?_⟩
  · rw [isEdge, decide_eq_false_iff_not]
    exact fun hle => hne _ (hedge _ hle) (Char.ofNat_toNat c).symm
  · simp [isBreak, hne '\t' (by decide), hne '\n' (by decide), hne '\r' (by decide)]
  · simp [isSlash, hne '/' (by decide), hne '\\' (by decide)]
  · simp [isStop, hne '?' (by decide), hne '#' (by decide)]

theorem edge_facts {c : Char} (h : isEdge c = true) : isSlash c = false ∧ isEnd c = false := by
  have hle : c.toNat ≤ 32 := of_decide_eq_true h
  have hne (d : Char) (hd : 32 < d.toNat) : c ≠ d := by
    rintro rfl
    omega
  constructor
  · simp [isSlash, hne '/' (by decide), hne '\\' (by decide)]
  · simp [isEnd, isSlash, isStop, hne '/' (by decide), hne '\\' (by decide),
      hne '?' (by decide), hne '#' (by decide)]

theorem isDots_cases {s : List Char} (h : isDots s = true) :
    (∃ c ∈ s, c.isAlphanum = false) ∧ ∀ c ∈ s, isEdge c = false := by
  have hall : ∀ s ∈ singleDots ++ doubleDots,
      (s.any (fun c => !c.isAlphanum) && s.all fun c => !isEdge c) = true :=
    List.all_eq_true.mp (by decide)
  have hmem : s ∈ singleDots ++ doubleDots := by
    rw [List.mem_append, ← List.contains_iff_mem, ← List.contains_iff_mem, ← Bool.or_eq_true]
    exact h
  simpa using hall s hmem

/-- A name of letters and digits is read as it is. -/
theorem Rules.name_eq (rules : Rules η) (hname : ∀ c ∈ name, c.isAlphanum = true) :
    name.flatMap (percentEncode rules.pathSet) = name := by
  induction name with
  | nil => rfl
  | cons c name ih =>
    obtain ⟨hc, hrest⟩ := List.forall_mem_cons.mp hname
    rw [List.flatMap_cons, ih hrest, percentEncode, rules.pathSet_alphanum c hc]
    rfl

theorem isDots_name (hname : ∀ c ∈ name, c.isAlphanum = true) : isDots name = false := by
  rw [← Bool.not_eq_true]
  intro hdots
  obtain ⟨⟨c, hc, hnot⟩, -⟩ := isDots_cases hdots
  rw [hname c hc] at hnot
  cases hnot

/-- The text of a URL with a name after it, clean. -/
theorem cleaned_child (hname : ∀ c ∈ name, c.isAlphanum = true) (hne : name ≠ []) :
    cleaned (f ++ '/' :: name) = f.filter (!isBreak ·) ++ '/' :: name := by
  have hfilter : ('/' :: name).filter (!isBreak ·) = '/' :: name := by
    rw [List.filter_eq_self]
    refine List.forall_mem_cons.mpr ⟨by decide, fun c hc => ?_⟩
    rw [(alphanum_facts (hname c hc)).2.1]
    rfl
  have hlast : f ++ '/' :: name = f ++ '/' :: name.dropLast ++ [name.getLast hne] := by
    rw [List.append_assoc, List.cons_append, List.dropLast_append_getLast]
  rw [hlast, cleaned_concat (alphanum_facts (hname _ (List.getLast_mem hne))).1, ← hlast,
    List.filter_append, hfilter]

/-- What begins a query or a fragment is behind the authority. -/
theorem stop_mem_iff {c : Char} (hc : isStop c = true) :
    c ∈ tailPart (f.filter (!isBreak ·)) ↔ c ∈ f := by
  have hbreak : isBreak c = false := by
    rcases (by simpa [isStop] using hc : c = '?' ∨ c = '#') with rfl | rfl <;> decide
  have hslash : isSlash c = false := by
    rcases (by simpa [isStop] using hc : c = '?' ∨ c = '#') with rfl | rfl <;> decide
  constructor
  · intro hmem
    exact List.mem_of_mem_filter
      ((List.dropWhile_suffix _).subset ((List.dropWhile_suffix _).subset hmem))
  · intro hmem
    have hfilter : c ∈ f.filter (!isBreak ·) := List.mem_filter.mpr ⟨hmem, by rw [hbreak]; rfl⟩
    rw [← List.takeWhile_append_dropWhile (p := isSlash) (l := f.filter (!isBreak ·)),
      List.mem_append] at hfilter
    have hrest := hfilter.resolve_left fun hfront => by
      rw [List.mem_takeWhile_imp hfront] at hslash
      cases hslash
    rw [← List.takeWhile_append_dropWhile (p := (!isEnd ·))
      (l := (f.filter (!isBreak ·)).dropWhile isSlash), List.mem_append] at hrest
    refine hrest.resolve_left fun hfront => ?_
    have hend := List.mem_takeWhile_imp hfront
    rw [isEnd, hc, Bool.or_true] at hend
    cases hend

theorem forall_tailPart_iff : (∀ c ∈ tailPart (f.filter (!isBreak ·)), isStop c = false) ↔
    ∀ c ∈ f, isStop c = false := by
  simp only [← Bool.not_eq_true]
  exact ⟨fun hall c hc hstop => hall c ((stop_mem_iff hstop).mpr hc) hstop,
    fun hall c hc hstop => hall c ((stop_mem_iff hstop).mp hc) hstop⟩

theorem splitOnP_name (hname : ∀ c ∈ name, c.isAlphanum = true) :
    name.splitOnP isSlash = [name] :=
  List.splitOnP_eq_singleton fun c hc => (alphanum_facts (hname c hc)).2.2.1

/-- **A name below a path**: the path itself has no empty segment at its end. -/
theorem Rules.child_path_iff (rules : Rules η) (hname : ∀ c ∈ name, c.isAlphanum = true)
    (t : List Char) (k : ℕ) :
    pathText (resolve rules.pathSet (segments (t ++ '/' :: name))) =
        (pathText (resolve rules.pathSet (segments (t ++ List.replicate k '/')))).rdropWhile
          (· == '/') ++ '/' :: name ↔
      (walk rules.pathSet (segments t)).getLast? ≠ some [] := by
  rw [rdropWhile_resolve, segments_append rfl, splitOnP_name hname,
    resolve_concat (isDots_name hname), rules.name_eq hname, pathText_append, pathText_singleton,
    List.append_left_inj, eq_comm,
    List.rdropWhile_eq_self_iff]
  refine Iff.trans ?_ (not_congr (getLast_pathText (slashless_walk (slashless_segments t))))
  cases hpath : pathText (walk rules.pathSet (segments t)) with
  | nil => simp
  | cons c path => simp [List.getLast?_eq_some_getLast]

theorem takeWhile_slashes (k : ℕ) : (List.replicate k '/').takeWhile (!isEnd ·) = [] := by
  cases k <;> rfl

/-- Some text is read as an authority only behind the slashes. -/
theorem Rules.skip_ne_nil {t : List Char} {port : ℕ} {found : η × ℕ}
    (h : rules.authority port (authorityPart t) = some found) : t.dropWhile isSlash ≠ [] := by
  intro hnil
  rw [authorityPart, hnil, List.takeWhile_nil, rules.authority_nil] at h
  cases h

/-- What a name adds to a URL whose text is only trimmed of tabs and line breaks. -/
theorem Rules.child_of_ends (hport : scheme'.defaultPort = scheme.defaultPort)
    (h : rules.parse scheme (f ++ List.replicate k '/') = some url)
    (hname : ∀ c ∈ name, c.isAlphanum = true) (hne : name ≠ [])
    (hends : ∀ c ∈ (f ++ List.replicate k '/').rtakeWhile isEdge, isBreak c = true) :
    (∃ child, rules.parse scheme' (f ++ '/' :: name) = some child ∧
      child.host = url.host ∧ child.port = url.port ∧
      child.path = url.path.rdropWhile (· == '/') ++ '/' :: name ∧
      child.query = none ∧ child.fragment = none) ↔
    (∀ c ∈ f, isStop c = false) ∧
      (walk rules.pathSet (segments (pathPart (f.filter (!isBreak ·))))).getLast? ≠ some [] := by
  -- Trimming takes tabs and line breaks only, so the slashes at the end are kept.
  have hclean : cleaned (f ++ List.replicate k '/') =
      f.filter (!isBreak ·) ++ List.replicate k '/' := by
    rw [cleaned_eq_filter hends, List.filter_append]
    congr 1
    rw [List.filter_eq_self]
    intro c hc
    rw [List.eq_of_mem_replicate hc]
    rfl
  obtain ⟨host, port, hfound, rfl⟩ := parse_eq_some.mp h
  have hstops := forall_tailPart_iff (f := f)
  have hchild := cleaned_child (f := f) hname hne
  rw [hclean] at hfound ⊢
  generalize f.filter (!isBreak ·) = g at hfound hstops hchild ⊢
  -- The name begins behind the authority.
  have hskip : g.dropWhile isSlash ≠ [] := by
    have hlong := rules.skip_ne_nil hfound
    rw [Ne, List.dropWhile_eq_nil_iff] at hlong ⊢
    refine fun hall => hlong fun c hc => ?_
    rcases List.mem_append.mp hc with hc | hc
    · exact hall c hc
    · rw [List.eq_of_mem_replicate hc]
      rfl
  obtain ⟨hauthority, htail⟩ := parts_append hskip (takeWhile_slashes k)
  obtain ⟨hauthority', htail'⟩ := parts_append (x := '/' :: name) hskip rfl
  rw [hauthority] at hfound
  have hname' : ∀ c ∈ '/' :: name, isStop c = false :=
    List.forall_mem_cons.mpr ⟨rfl, fun c hc => (alphanum_facts (hname c hc)).2.2.2⟩
  -- A query or a fragment of the text would take the name into it.
  have hnone : (queryPart (g ++ '/' :: name) = none ∧ fragmentPart (g ++ '/' :: name) = none) ↔
      ∀ c ∈ f, isStop c = false := by
    rw [query_fragment_none, htail', List.forall_mem_append, hstops]
    exact and_iff_left hname'
  have hpath (hall : ∀ c ∈ f, isStop c = false) :
      pathText (resolve rules.pathSet (segments (pathPart (g ++ '/' :: name)))) =
          (pathText (resolve rules.pathSet (segments (pathPart
            (g ++ List.replicate k '/'))))).rdropWhile (· == '/') ++ '/' :: name ↔
        (walk rules.pathSet (segments (pathPart g))).getLast? ≠ some [] := by
    have hpart (x : List Char) (hx : ∀ c ∈ x, isStop c = false)
        (htail : tailPart (g ++ x) = tailPart g ++ x) : pathPart (g ++ x) = tailPart g ++ x := by
      rw [pathPart_eq, htail]
      rw [htail]
      exact List.forall_mem_append.mpr ⟨hstops.mpr hall, hx⟩
    have hslashes : ∀ c ∈ List.replicate k '/', isStop c = false := by
      intro c hc
      rw [List.eq_of_mem_replicate hc]
      rfl
    have hself := hpart [] (fun c hc => absurd hc List.not_mem_nil) (by simp)
    rw [List.append_nil, List.append_nil] at hself
    rw [hpart _ hname' htail', hpart _ hslashes htail, hself]
    exact rules.child_path_iff hname _ k
  constructor
  · rintro ⟨child, hparse, -, -, hpath', hquery, hfragment⟩
    obtain ⟨_, _, -, rfl⟩ := parse_eq_some.mp hparse
    rw [hchild] at hpath' hquery hfragment
    have hall := hnone.mp ⟨Option.map_eq_none_iff.mp hquery, Option.map_eq_none_iff.mp hfragment⟩
    exact ⟨hall, (hpath hall).mp hpath'⟩
  · rintro ⟨hall, hsettled⟩
    obtain ⟨hquery, hfragment⟩ := hnone.mpr hall
    refine ⟨_, parse_eq_some.mpr ⟨host, port, ?_, rfl⟩, rfl, rfl, ?_, ?_, ?_⟩
    · rw [hchild, hauthority', hport, hfound]
    · rw [hchild]
      exact (hpath hall).mpr hsettled
    · rw [hchild, hquery]
      rfl
    · rw [hchild, hfragment]
      rfl

/-- A text that is trimmed of more than tabs and line breaks keeps in front of a name what it
was trimmed of. -/
theorem Rules.not_child
    (h : rules.parse scheme (f ++ List.replicate k '/') = some url)
    (hname : ∀ c ∈ name, c.isAlphanum = true) (hne : name ≠ [])
    (hends : ¬ ∀ c ∈ (f ++ List.replicate k '/').rtakeWhile isEdge, isBreak c = true) :
    ¬ ∃ child, rules.parse scheme' (f ++ '/' :: name) = some child ∧
      child.path = url.path.rdropWhile (· == '/') ++ '/' :: name ∧
      child.query = none ∧ child.fragment = none := by
  -- Behind a slash nothing more would be trimmed.
  obtain rfl : k = 0 := by
    cases k with
    | zero => rfl
    | succ k =>
      refine absurd (fun c hc => ?_) hends
      rw [List.replicate_succ', ← List.append_assoc,
        List.rtakeWhile_concat_neg _ _ _ (by decide)] at hc
      exact absurd hc List.not_mem_nil
  rw [List.replicate_zero, List.append_nil] at h hends
  -- What was trimmed and is no tab or line break: it stays in front of the name.
  have hj : (f.rtakeWhile isEdge).filter (!isBreak ·) ≠ [] := by
    intro hnil
    refine hends fun c hc => ?_
    simpa using List.filter_eq_nil_iff.mp hnil c hc
  have hedge : ∀ c ∈ (f.rtakeWhile isEdge).filter (!isBreak ·), isEdge c = true :=
    fun c hc => List.mem_rtakeWhile_imp (List.mem_of_mem_filter hc)
  have hsplit := filter_eq_cleaned_append f
  have hchild := cleaned_child (f := f) hname hne
  obtain ⟨host, port, hfound, rfl⟩ := parse_eq_some.mp h
  rw [hsplit] at hchild
  generalize (f.rtakeWhile isEdge).filter (!isBreak ·) = j at hj hedge hchild
  generalize cleaned f = r at hfound hchild ⊢
  rintro ⟨child, hparse, hpath, hquery, hfragment⟩
  obtain ⟨host', port', hfound', rfl⟩ := parse_eq_some.mp hparse
  rw [hchild] at hfound' hpath hquery hfragment
  have hskip := rules.skip_ne_nil hfound
  obtain ⟨hdrop, -⟩ := dropWhile_append_ne (x := j) hskip
  have hskip' : (r ++ j).dropWhile isSlash ≠ [] := by
    rw [hdrop]
    exact fun hnil => hskip (List.append_eq_nil_iff.mp hnil).1
  obtain ⟨hauthority, htail⟩ := parts_append (x := '/' :: name) hskip' rfl
  rw [hauthority] at hfound'
  by_cases hnil : tailPart r = []
  · -- The host or the port ends with what was not trimmed.
    have hall : authorityPart (r ++ j) = r.dropWhile isSlash ++ j := by
      rw [authorityPart, hdrop, List.takeWhile_eq_self_iff]
      intro c hc
      rcases List.mem_append.mp hc with hc | hc
      · exact List.dropWhile_eq_nil_iff.mp hnil c hc
      · rw [(edge_facts (hedge c hc)).2]
        rfl
    rw [hall, ← List.dropLast_append_getLast hj, ← List.append_assoc,
      rules.authority_edge _ _ _ (hedge _ (List.getLast_mem hj))] at hfound'
    cases hfound'
  · -- The last segment does.
    have htail' : tailPart (r ++ j) = tailPart r ++ j := by
      rw [tailPart, hdrop]
      exact (dropWhile_append_ne hnil).1
    have hall := query_fragment_none.mp
      ⟨Option.map_eq_none_iff.mp hquery, Option.map_eq_none_iff.mp hfragment⟩
    have hnot : ∀ c ∈ tailPart r, isStop c = false := by
      rw [htail, htail', List.append_assoc, List.forall_mem_append] at hall
      exact hall.1
    obtain ⟨l, s, hl, hl'⟩ := segments_concat hnil fun c hc => (edge_facts (hedge c hc)).1
    -- With it the segment is no dot segment, and it is longer.
    have hdots : isDots (s ++ j) = false := by
      rw [← Bool.not_eq_true]
      intro hdots
      obtain ⟨c, hc⟩ := List.exists_mem_of_ne_nil j hj
      have hcontra := (isDots_cases hdots).2 c (List.mem_append_right s hc)
      rw [hedge c hc] at hcontra
      cases hcontra
    have hlonger : 0 < (j.flatMap (percentEncode rules.pathSet)).length := by
      obtain ⟨c, rest, rfl⟩ := List.exists_cons_of_ne_nil hj
      rw [List.flatMap_cons, List.length_append]
      have hpos := List.length_pos_iff.mpr (percentEncode_ne_nil rules.pathSet c)
      omega
    have htrim := rdropWhile_resolve rules.pathSet (tailPart r) 0
    rw [List.replicate_zero, List.append_nil, hl, walk_concat] at htrim
    rw [pathPart_eq hall, htail, htail', segments_append rfl, splitOnP_name hname, hl',
      resolve_concat (isDots_name hname), walk_concat, push_of_not_dots hdots,
      rules.name_eq hname, pathText_append, pathText_singleton, pathPart_eq hnot, hl, htrim,
      List.append_left_inj, pathText_append, pathText_singleton] at hpath
    have hle := (List.rdropWhile_prefix (p := (· == '/'))
      (l := pathText (push rules.pathSet (walk rules.pathSet l) s))).length_le
    have hpush := length_pathText_push rules.pathSet (walk rules.pathSet l) s
    rw [← hpath, List.flatMap_append, List.length_append, List.length_cons,
      List.length_append] at hle
    omega

end Child

end Url

end Machine

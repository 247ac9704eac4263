import RocketSocket.Lib.Url
import RocketSocket.Rest.Client

/-!
# The two endpoints of a workspace

From one base URL, `api_base` of the REST client derives the root of the API, with a URL parser,
and `websocket_url` of the bot the endpoint of the websocket, by editing the text.  A text is
the list of its characters.  The parser is the `url` crate's, of which it is relied on that it
follows the URL Standard.

## Main definitions

* `UrlCrate`, `UrlCrate.Follows` — the parser, and what is relied on.
* `apiBase`, `websocketUrl` — as in the source.
* `SameWorkspace` — the two endpoints are of one workspace.
* `Addressable` — the text after the scheme ends where its path does.

## Main results

* `apiBase_eq_ok`, `websocketUrl_eq_ok` — what the two functions return.
* `sameWorkspace_iff` — **the two transports address one workspace**, just if the base URL is
  addressable.
-/

namespace RocketSocket

open Machine

variable {η : Type}

/-! ### The parser -/

/-- What is called of the `url` crate. -/
structure UrlCrate (η : Type) where
  /-- `Url::parse`, with the text of its error. -/
  parse : List Char → Except String (Url η)
  /-- `Url::set_path`. -/
  setPath : Url η → List Char → Url η
  /-- `Url::join`. -/
  join : Url η → List Char → Except String (Url η)

/-- The path of the API below a workspace. -/
def apiPrefix : List Char := "api/v1/".toList

/-- What is between a scheme and the rest. -/
def schemeEnd : List Char := "://".toList

/-- What is relied on: the crate follows the URL Standard. -/
structure UrlCrate.Follows (crate : UrlCrate η) (rules : Url.Rules η) : Prop where
  /-- A URL of one of the schemes is parsed. -/
  parse : ∀ scheme rest,
    (crate.parse (scheme.name ++ schemeEnd ++ rest)).toOption = rules.parse scheme rest
  /-- The path of a URL can be given a slash at its end. -/
  setPath : ∀ scheme rest url, rules.parse scheme rest = some url →
    crate.setPath { url with query := none, fragment := none } (url.path ++ ['/']) =
      { url with path := url.path ++ ['/'], query := none, fragment := none }
  /-- What is joined comes after the last slash. -/
  join : ∀ url, url.path.getLast? = some '/' → crate.join url apiPrefix =
    .ok { url with path := url.path ++ apiPrefix, query := none, fragment := none }

/-! ### The functions -/

/-- `BotError::Url`: the message is what was expected, and the text that was given. -/
inductive BotError where
  | url (expected : String) (given : List Char)
  deriving DecidableEq, Repr

/-- Turn a workspace URL into the `…/api/v1/` root. -/
def apiBase (crate : UrlCrate η) (baseUrl : List Char) : Except RestError (Url η) := do
  let url ← (crate.parse baseUrl).mapError (RestError.invalidUrl (String.ofList baseUrl))
  let url := { url with query := none, fragment := none }
  let url := if url.path.getLast? = some '/' then url else crate.setPath url (url.path ++ ['/'])
  (crate.join url apiPrefix).mapError (RestError.invalidUrl (String.ofList baseUrl))

/-- Derives the DDP endpoint from a workspace base URL. -/
def websocketUrl (baseUrl : List Char) : Except BotError (List Char) :=
  let trimmed := baseUrl.rdropWhile (· == '/')
  match trimmed.dropPrefix? "https://".toList with
  | some rest => .ok ("wss://".toList ++ rest ++ "/websocket".toList)
  | none =>
    match trimmed.dropPrefix? "http://".toList with
    | some rest => .ok ("ws://".toList ++ rest ++ "/websocket".toList)
    | none =>
      if "ws://".toList.isPrefixOf trimmed || "wss://".toList.isPrefixOf trimmed then
        .ok (trimmed ++ "/websocket".toList)
      else .error (.url "an http(s) or ws(s) URL" baseUrl)

/-! ### The relation -/

/-- The scheme of the websocket. -/
def websocketScheme : Scheme → Scheme
  | .http | .ws => .ws
  | .https | .wss => .wss

/-- The endpoint is a URL on the host and port of the API, one segment below the path of the
workspace, with nothing after it. -/
def SameWorkspace (crate : UrlCrate η) (api : Url η) (endpoint : List Char) : Prop :=
  ∃ ws workspace, crate.parse endpoint = .ok ws ∧ api.path = workspace ++ apiPrefix ∧
    ws.host = api.host ∧ ws.port = api.port ∧
    ws.path = workspace.rdropWhile (· == '/') ++ "/websocket".toList ∧
    ws.scheme = websocketScheme api.scheme ∧ ws.query = none ∧ ws.fragment = none

/-- The text after the scheme, without the slashes at the end. -/
def afterScheme (baseUrl : List Char) : List Char :=
  ((baseUrl.rdropWhile (· == '/')).dropWhile (· != ':')).drop 3

/-- The text of a URL ends where its path does, and the path does not end with an empty
segment. -/
structure Addressable (rules : Url.Rules η) (baseUrl : List Char) : Prop where
  /-- There is no query and no fragment. -/
  plain : ∀ c ∈ baseUrl, Url.isStop c = false
  /-- Nothing but tabs and line breaks is trimmed at the end. -/
  ends : ∀ c ∈ baseUrl.rtakeWhile Url.isEdge, Url.isBreak c = true
  /-- The last segment is not empty, when the slashes at the end are taken off and the dots are
  resolved. -/
  settled : (Url.walk rules.pathSet (Url.segments (Url.pathPart
    ((afterScheme baseUrl).filter (!Url.isBreak ·))))).getLast? ≠ some []

/-! ### What the functions return -/

section Endpoints

variable {crate : UrlCrate η} {rules : Url.Rules η} {baseUrl endpoint rest : List Char}
  {scheme : Scheme} {url api : Url η}

theorem UrlCrate.Follows.parse_eq_ok (h : crate.Follows rules) :
    crate.parse (scheme.name ++ schemeEnd ++ rest) = .ok url ↔
      rules.parse scheme rest = some url := by
  rw [← h.parse]
  cases crate.parse (scheme.name ++ schemeEnd ++ rest) with
  | ok url => simp [Except.toOption]
  | error reason => simp [Except.toOption]

/-- The root of the API is below the path of the base URL, with nothing after it. -/
theorem apiBase_eq_ok (h : crate.Follows rules)
    (hapi : apiBase crate (scheme.name ++ schemeEnd ++ rest) = .ok api) :
    ∃ url workspace, rules.parse scheme rest = some url ∧
      api = { url with path := workspace ++ apiPrefix, query := none, fragment := none } ∧
      workspace.rdropWhile (· == '/') = url.path.rdropWhile (· == '/') := by
  rw [apiBase] at hapi
  cases hparse : crate.parse (scheme.name ++ schemeEnd ++ rest) with
  | error reason =>
    rw [hparse] at hapi
    cases hapi
  | ok url =>
    have hurl := h.parse_eq_ok.mp hparse
    rw [hparse] at hapi
    change (crate.join (if url.path.getLast? = some '/' then _ else _) apiPrefix).mapError _ =
      .ok api at hapi
    split at hapi
    · next hslash =>
      rw [h.join { url with query := none, fragment := none } hslash] at hapi
      cases hapi
      exact ⟨url, url.path, hurl, rfl, rfl⟩
    · rw [h.setPath scheme rest url hurl, h.join _ List.getLast?_concat] at hapi
      cases hapi
      exact ⟨url, url.path ++ ['/'], hurl, rfl, List.rdropWhile_concat_pos _ _ _ (by decide)⟩

/-- The endpoint is the text of the base URL, with another scheme and another end. -/
theorem websocketUrl_eq_ok
    (hbase : "http://".toList <+: baseUrl ∨ "https://".toList <+: baseUrl)
    (h : websocketUrl baseUrl = .ok endpoint) : ∃ scheme f k,
      (scheme = .http ∨ scheme = .https) ∧
      baseUrl = scheme.name ++ schemeEnd ++ (f ++ List.replicate k '/') ∧
      endpoint = (websocketScheme scheme).name ++ schemeEnd ++ (f ++ "/websocket".toList) ∧
      afterScheme baseUrl = f := by
  obtain ⟨k, hk⟩ : ∃ k, baseUrl = baseUrl.rdropWhile (· == '/') ++ List.replicate k '/' := by
    refine ⟨(baseUrl.rtakeWhile (· == '/')).length, ?_⟩
    rw [← List.eq_replicate_of_mem fun c hc => by simpa using List.mem_rtakeWhile_imp hc,
      List.rdropWhile_append_rtakeWhile]
  rw [websocketUrl] at h
  rw [afterScheme]
  generalize baseUrl.rdropWhile (· == '/') = trimmed at h hk ⊢
  split at h
  · next f hf =>
    obtain ⟨front, htrimmed, hfront⟩ := List.dropPrefix?_eq_some_iff.mp hf
    cases h
    rw [eq_of_beq hfront] at htrimmed
    subst htrimmed
    refine ⟨.https, f, k, .inr rfl, ?_, ?_, rfl⟩
    · rw [hk, List.append_assoc]
      rfl
    · rw [List.append_assoc]
      rfl
  · split at h
    · next f hf =>
      obtain ⟨front, htrimmed, hfront⟩ := List.dropPrefix?_eq_some_iff.mp hf
      cases h
      rw [eq_of_beq hfront] at htrimmed
      subst htrimmed
      refine ⟨.http, f, k, .inl rfl, ?_, ?_, rfl⟩
      · rw [hk, List.append_assoc]
        rfl
      · rw [List.append_assoc]
        rfl
    · exfalso
      split at h
      · next hws =>
        -- A text with one scheme in front has no other.
        have hfront : trimmed <+: baseUrl := ⟨_, hk.symm⟩
        have hws' : "ws://".toList <+: baseUrl ∨ "wss://".toList <+: baseUrl := by
          rw [Bool.or_eq_true, List.isPrefixOf_iff_prefix, List.isPrefixOf_iff_prefix] at hws
          exact hws.imp (·.trans hfront) (·.trans hfront)
        have hh : baseUrl.head? = some 'h' := by
          rcases hbase with ⟨_, rfl⟩ | ⟨_, rfl⟩ <;> rfl
        have hw : baseUrl.head? = some 'w' := by
          rcases hws' with ⟨_, rfl⟩ | ⟨_, rfl⟩ <;> rfl
        -- The two schemes begin with different letters.
        rw [hh] at hw
        exact absurd hw (by decide)
      · cases h

theorem websocket_alphanum : ∀ c ∈ "websocket".toList, c.isAlphanum = true :=
  List.all_eq_true.mp (by decide)

/-- What is said of a base URL is said of the text after its scheme. -/
theorem addressable_iff {f : List Char} {k : ℕ} (hrest : rest = f ++ List.replicate k '/')
    (hafter : afterScheme (scheme.name ++ schemeEnd ++ rest) = f) :
    Addressable rules (scheme.name ++ schemeEnd ++ rest) ↔
      (∀ c ∈ f, Url.isStop c = false) ∧ (∀ c ∈ rest.rtakeWhile Url.isEdge, Url.isBreak c = true) ∧
        (Url.walk rules.pathSet (Url.segments (Url.pathPart
          (f.filter (!Url.isBreak ·))))).getLast? ≠ some [] := by
  -- Neither the scheme nor the slashes at the end carry a query or a fragment.
  have hplain : (∀ c ∈ scheme.name ++ schemeEnd ++ rest, Url.isStop c = false) ↔
      ∀ c ∈ f, Url.isStop c = false := by
    have hfront : (scheme.name ++ schemeEnd).all (fun c => !Url.isStop c) = true := by
      cases scheme <;> decide
    have hfront' : ∀ c ∈ scheme.name ++ schemeEnd, Url.isStop c = false := fun c hc => by
      simpa using List.all_eq_true.mp hfront c hc
    have hslashes : ∀ c ∈ List.replicate k '/', Url.isStop c = false := by
      intro c hc
      rw [List.eq_of_mem_replicate hc]
      rfl
    rw [hrest]
    constructor
    · exact fun h c hc => h c (List.mem_append_right _ (List.mem_append_left _ hc))
    · exact fun h => List.forall_mem_append.mpr
        ⟨hfront', List.forall_mem_append.mpr ⟨h, hslashes⟩⟩
  -- The slash before the host stops the walk from the end.
  have hends : (scheme.name ++ schemeEnd ++ rest).rtakeWhile Url.isEdge =
      rest.rtakeWhile Url.isEdge := by
    have hfront : (scheme.name ++ schemeEnd).reverse.takeWhile Url.isEdge = [] := by
      cases scheme <;> rfl
    rw [List.rtakeWhile, List.reverse_append, (Url.takeWhile_append_stop hfront).1]
    rfl
  constructor
  · rintro ⟨h, hends', hsettled⟩
    rw [hafter] at hsettled
    rw [hends] at hends'
    exact ⟨hplain.mp h, hends', hsettled⟩
  · rintro ⟨h, hends', hsettled⟩
    refine ⟨hplain.mpr h, ?_, ?_⟩
    · rwa [hends]
    · rwa [hafter]

/-- **The two transports address one workspace**, just if the base URL is addressable. -/
theorem sameWorkspace_iff (crate : UrlCrate η) (rules : Url.Rules η)
    (hfollows : crate.Follows rules) (baseUrl endpoint : List Char) (api : Url η)
    (hbase : "http://".toList <+: baseUrl ∨ "https://".toList <+: baseUrl)
    (hapi : apiBase crate baseUrl = .ok api) (hws : websocketUrl baseUrl = .ok endpoint) :
    SameWorkspace crate api endpoint ↔ Addressable rules baseUrl := by
  obtain ⟨scheme, f, k, hscheme, rfl, rfl, hafter⟩ := websocketUrl_eq_ok hbase hws
  obtain ⟨url, workspace, hurl, rfl, hworkspace⟩ := apiBase_eq_ok hfollows hapi
  have hport : (websocketScheme scheme).defaultPort = scheme.defaultPort := by
    rcases hscheme with rfl | rfl <;> rfl
  -- The API root is given, so what is left to say is where the WebSocket endpoint leads.
  have hsame : SameWorkspace crate
      { url with path := workspace ++ apiPrefix, query := none, fragment := none }
      ((websocketScheme scheme).name ++ schemeEnd ++ (f ++ "/websocket".toList)) ↔
      ∃ child, rules.parse (websocketScheme scheme) (f ++ "/websocket".toList) = some child ∧
        child.host = url.host ∧ child.port = url.port ∧
        child.path = url.path.rdropWhile (· == '/') ++ "/websocket".toList ∧
        child.query = none ∧ child.fragment = none := by
    constructor
    · rintro ⟨ws, workspace', hparse, happend, hhost, hport', hpath, -, hquery, hfragment⟩
      obtain rfl := List.append_cancel_right happend
      refine ⟨ws, hfollows.parse_eq_ok.mp hparse, hhost, hport', ?_, hquery, hfragment⟩
      rw [hpath, hworkspace]
    · rintro ⟨child, hparse, hhost, hport', hpath, hquery, hfragment⟩
      refine ⟨child, workspace, hfollows.parse_eq_ok.mpr hparse, rfl, hhost, hport', ?_, ?_,
        hquery, hfragment⟩
      · rw [hpath, hworkspace]
      · obtain ⟨_, _, -, rfl⟩ := Url.Rules.parse_eq_some.mp hparse
        obtain ⟨_, _, -, rfl⟩ := Url.Rules.parse_eq_some.mp hurl
        rfl
  rw [hsame, addressable_iff rfl hafter]
  by_cases hends : ∀ c ∈ (f ++ List.replicate k '/').rtakeWhile Url.isEdge, Url.isBreak c = true
  · -- Nothing but line breaks is trimmed, and the paths are compared segment by segment.
    refine (Url.Rules.child_of_ends hport hurl websocket_alphanum (by decide) hends).trans ?_
    exact ⟨fun h => ⟨h.1, hends, h.2⟩, fun h => ⟨h.1, h.2.2⟩⟩
  · -- A trimmed blank is in the middle of the endpoint, where no parser trims it.
    refine iff_of_false ?_ fun h => hends h.2.1
    rintro ⟨child, hparse, -, -, hrest⟩
    exact Url.Rules.not_child hurl websocket_alphanum (by decide) hends ⟨child, hparse, hrest⟩

end Endpoints

/-! ### Plain hosts -/

/-- Characters that no part of a URL has encoded. -/
def keptAnywhere : List Char := "!$%&()*+,-./:;=@[]^_|~\\".toList

/-- The rules of the Standard, for hosts of letters, digits, dots and hyphens with no port. -/
def plainRules : Url.Rules (List Char) where
  authority port a :=
    if a ≠ [] ∧ a.all (fun c => c.isAlphanum || c == '.' || c == '-') then some (a, port) else none
  pathSet c := !(c.isAlphanum || keptAnywhere.contains c || c == '\'')
  querySet c := !(c.isAlphanum || keptAnywhere.contains c || "?\x60\x7b\x7d".toList.contains c)
  fragmentSet c := !(c.isAlphanum || keptAnywhere.contains c || "#'?\x7b\x7d".toList.contains c)
  authority_nil _ := if_neg fun h => h.1 rfl
  authority_edge port a c hc := by
    refine if_neg fun h => ?_
    have hlast := List.all_eq_true.mp h.2 c (List.mem_append_right a (List.mem_singleton_self c))
    rcases (by simpa using hlast : (c.isAlphanum = true ∨ c = '.') ∨ c = '-') with (h | rfl) | rfl
    · rw [(Url.alphanum_facts h).1] at hc
      cases hc
    · exact absurd hc (by decide)
    · exact absurd hc (by decide)
  pathSet_alphanum c hc := by
    rw [hc]
    rfl

/-- A parser for such hosts. -/
def plainCrate : UrlCrate (List Char) where
  parse s :=
    match [Scheme.http, .https, .ws, .wss].find? (fun k => k.name == s.takeWhile (· != ':')),
      (s.dropWhile (· != ':')).dropPrefix? schemeEnd with
    | some scheme, some rest =>
      (plainRules.parse scheme rest).elim (.error "invalid international domain name") .ok
    | _, _ => .error "relative URL without a base"
  setPath url path := { url with path }
  join url path := .ok { url with path := url.path ++ path, query := none, fragment := none }

theorem plainCrate_follows : plainCrate.Follows plainRules := by
  constructor
  · intro scheme rest
    have hparse : plainCrate.parse (scheme.name ++ schemeEnd ++ rest) =
        (plainRules.parse scheme rest).elim (.error "invalid international domain name") .ok := by
      have hdrop : (schemeEnd ++ rest).dropPrefix? schemeEnd = some rest :=
        List.dropPrefix?_eq_some_iff.mpr ⟨schemeEnd, rfl, beq_self_eq_true _⟩
      have hname : (scheme.name ++ schemeEnd ++ rest).takeWhile (· != ':') = scheme.name ∧
          (scheme.name ++ schemeEnd ++ rest).dropWhile (· != ':') = schemeEnd ++ rest := by
        cases scheme <;> exact ⟨rfl, rfl⟩
      have hfind : [Scheme.http, .https, .ws, .wss].find? (fun k => k.name == scheme.name) =
          some scheme := by
        cases scheme <;> rfl
      simp only [plainCrate, hname.1, hname.2, hfind, hdrop]
    rw [hparse]
    cases plainRules.parse scheme rest <;> rfl
  · exact fun _ _ _ _ => rfl
  · exact fun _ _ => rfl

theorem sameWorkspace_below_chat :
    SameWorkspace plainCrate
      { scheme := .https, host := "host".toList, port := 443, path := "/chat/api/v1/".toList,
        query := none, fragment := none } "wss://host/chat/websocket".toList ↔
      Addressable plainRules "https://host/chat/".toList :=
  sameWorkspace_iff plainCrate plainRules plainCrate_follows _ _ _ (.inr (by decide)) (by rfl)
    (by rfl)

/-- The endpoint of a base URL with a query has no path. -/
theorem not_sameWorkspace :
    apiBase plainCrate "https://host/?q=1".toList = .ok
        { scheme := .https, host := "host".toList, port := 443, path := "/api/v1/".toList,
          query := none, fragment := none } ∧
      websocketUrl "https://host/?q=1".toList = .ok "wss://host/?q=1/websocket".toList ∧
      ¬ SameWorkspace plainCrate
        { scheme := .https, host := "host".toList, port := 443, path := "/api/v1/".toList,
          query := none, fragment := none } "wss://host/?q=1/websocket".toList := by
  refine ⟨by rfl, by rfl, ?_⟩
  rintro ⟨ws, workspace, hparse, -, -, -, -, -, hquery, -⟩
  have hws : plainCrate.parse "wss://host/?q=1/websocket".toList = .ok
      { scheme := .wss, host := "host".toList, port := 443, path := "/".toList,
        query := some "q=1/websocket".toList, fragment := none } := by rfl
  rw [hws] at hparse
  cases hparse
  cases hquery

end RocketSocket

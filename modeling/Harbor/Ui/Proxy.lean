import Harbor.Auth.Request
import Harbor.Lib.Runs
import Harbor.Ui.LoginPage

set_option autoImplicit false

/-! # The proxy for the UI's assets

`HandleProxyGet` fetches what it does not have from `remote_url`, for callers that are let in; the others get
the sign-in page at `/` and a 401 elsewhere. Requests are handled at the same time, so the steps are what
happens between two fetches, and the remote server answers by all it has been asked so far. The credentials of
the callers decide whether something is fetched, and nothing else: requests with other credentials lead to the
same state (`proxy_noninterference`).
-/

namespace Harbor.Ui.Proxy

open Harbor.Auth Runs LoginPage
open Harbor.Routes.Admin (emDash)

/-! ## The functions -/

/-- What `HandleProxyGet` reads of an `httplib::Request`. -/
structure Request where
  path : Bytes
  params : List (Bytes × Bytes) := []
  headers : Headers := []
deriving DecidableEq

/-- The arguments of `httplib::Client::Get`. -/
structure Fetch where
  path : Bytes
  params : List (Bytes × Bytes)
  headers : Headers
deriving DecidableEq

/-- `httplib::Error`, with the text of the errors that are not told apart here. -/
inductive Error where
  | connection
  | read
  | write
  | other (text : Bytes)
deriving DecidableEq

/-- `to_string` of `httplib`. -/
def Error.toString : Error → Bytes
  | .connection => lit "Could not establish connection"
  | .read => lit "Failed to read connection"
  | .write => lit "Failed to write connection"
  | .other text => text

structure Response where
  status : Nat := 200
  headers : Headers := []
  body : Bytes := []
deriving DecidableEq

/-! The methods below stand for those of cpp-httplib, which is not part of the repository. -/

/-- `headers.erase`. -/
def eraseHeader (headers : Headers) (key : Bytes) : Headers :=
  headers.filter fun field => Bytes.lower field.1 ≠ Bytes.lower key

/-- `Response::set_header`. -/
def Response.setHeader (res : Response) (key value : Bytes) : Response :=
  { res with headers := res.headers ++ [(key, value)] }

/-- `Response::set_content`. -/
def Response.setContent (res : Response) (body contentType : Bytes) : Response :=
  { res with
    body
    headers := eraseHeader res.headers (lit "Content-Type") ++ [(lit "Content-Type", contentType)] }

/-- The fields of `UiHandlers` the proxy uses, and the texts about the build it sends. -/
structure UiHandlers where
  auth : AuthManager
  remoteUrl : Bytes
  userAgent : Bytes
  libraryVersion : Bytes
  platform : Bytes
  uiExtensionVersion : Bytes

/-- `UiHandlers::AuthorizeUiRequest`. -/
def UiHandlers.authorizeUiRequest (ui : UiHandlers) (ctx : AuthContext) (req : Request) : AuthResult :=
  ui.auth.authenticateRequest ctx req.headers (lit "__HARBOR_AUTH__:ddb")

def kForwardableRequestHeaders : List Bytes :=
  [lit "Accept", lit "Accept-Language", lit "If-None-Match", lit "If-Modified-Since", lit "Range"]

/-- The request `HandleProxyGet` makes of the one it got. -/
def UiHandlers.fetchOf (ui : UiHandlers) (req : Request) : Fetch where
  path := req.path
  params := req.params
  headers :=
    [(lit "User-Agent", ui.userAgent), (lit "Accept-Encoding", lit "identity")] ++
      kForwardableRequestHeaders.filterMap fun name =>
        let value := getHeaderValue req.headers name
        if value = [] then none else some (name, value)

/-- The branch of `HandleProxyGet` for a caller that is not let in; `random` is what `RandomBytes` gives. -/
def signIn (random : Option (Vector UInt8 16)) (req : Request) : Response :=
  if req.path = lit "/" ∨ req.path = [] then
    match random with
    | none =>
        Response.setContent { status := 500 }
          (lit "Login page unavailable (csprng): RAND_bytes failed (no entropy?)")
          (lit "text/plain; charset=utf-8")
    | some bytes =>
        let nonce := generateScriptNonce bytes.toList
        (Response.setHeader {} (lit "Content-Security-Policy") (contentSecurityPolicy nonce)).setContent
          (renderLoginPage nonce) (lit "text/html; charset=utf-8")
  else
    Response.setContent { status := 401 } (lit "Unauthorized " ++ emDash ++ lit " sign in at /\n")
      (lit "text/plain; charset=utf-8")

/-- What `HandleProxyGet` answers with the result it has got. -/
def UiHandlers.pass (ui : UiHandlers) (fetch : Fetch) : Except Error Response → Response
  | .error e =>
      Response.setContent { status := 500 }
        (lit "Could not fetch: '" ++ fetch.path ++ lit "' from '" ++ ui.remoteUrl ++ lit "': " ++ e.toString)
        (lit "text/plain")
  | .ok res =>
      let res :=
        if fetch.path = lit "/config" then
          ((res.setHeader (lit "X-DuckDB-Version") ui.libraryVersion).setHeader
            (lit "X-DuckDB-Platform") ui.platform).setHeader
              (lit "X-DuckDB-UI-Extension-Version") ui.uiExtensionVersion
        else res
      { res with headers := eraseHeader res.headers (lit "Content-Length") }

/-- The errors after which there is a second attempt. -/
def Error.again : Error → Bool
  | .connection | .read | .write => true
  | .other _ => false

/-! ## The requests of a server -/

/-- A request with what its handler finds around it. -/
structure Arrival where
  ctx : AuthContext
  random : Option (Vector UInt8 16)
  req : Request

def UiHandlers.letsIn (ui : UiHandlers) (a : Arrival) : Bool := (ui.authorizeUiRequest a.ctx a.req).ok

/-- Where a request is. -/
inductive Stage where
  | idle
  /-- In front of `client.Get`. -/
  | first (fetch : Fetch)
  /-- In front of `retry.Get`. -/
  | second (fetch : Fetch)
  | done (res : Response)

structure State where
  stages : Nat → Stage := fun _ => .idle
  /-- What the remote server has been asked, in order and with the request it was asked for. -/
  fetched : List (Nat × Fetch) := []

inductive Action where
  | arrive (request : Nat) (a : Arrival)
  /-- The next fetch of a request. -/
  | fetch (request : Nat)

/-- The remote server: its answer to the last of the fetches it got. -/
abbrev Remote := List Fetch → Except Error Response

def State.setStage (s : State) (request : Nat) (stage : Stage) : State :=
  { s with stages := Function.update s.stages request stage }

def State.send (s : State) (request : Nat) (fetch : Fetch) : State :=
  { s with fetched := s.fetched ++ [(request, fetch)] }

/-- What the remote server says to the last fetch. -/
def answer (remote : Remote) (fetched : List (Nat × Fetch)) : Except Error Response :=
  remote (fetched.map Prod.snd)

/-- `HandleProxyGet` up to the first fetch, from there to the second, and to its end. -/
def step (ui : UiHandlers) (remote : Remote) (s : State) : Action → Option State
  | .arrive i a =>
      match s.stages i with
      | .idle =>
          if ui.letsIn a then some (s.setStage i (.first (ui.fetchOf a.req)))
          else some (s.setStage i (.done (signIn a.random a.req)))
      | _ => none
  | .fetch i =>
      match s.stages i with
      | .first fetch =>
          let s := s.send i fetch
          match answer remote s.fetched with
          | .error e =>
              if e.again then some (s.setStage i (.second fetch))
              else some (s.setStage i (.done (ui.pass fetch (.error e))))
          | .ok res => some (s.setStage i (.done (ui.pass fetch (.ok res))))
      | .second fetch =>
          let s := s.send i fetch
          some (s.setStage i (.done (ui.pass fetch (answer remote s.fetched))))
      | _ => none

/-! ## What leaves the server -/

/-- Requests that differ in their credentials only: not in what the proxy forwards, and not in whether they
are let in. -/
structure Alike (ui : UiHandlers) (a b : Arrival) : Prop where
  path : a.req.path = b.req.path
  params : a.req.params = b.req.params
  forwarded : ∀ name ∈ kForwardableRequestHeaders,
    getHeaderValue a.req.headers name = getHeaderValue b.req.headers name
  random : a.random = b.random
  letsIn : ui.letsIn a = ui.letsIn b

inductive AlikeAction (ui : UiHandlers) : Action → Action → Prop
  | arrive {i : Nat} {a b : Arrival} (h : Alike ui a b) : AlikeAction ui (.arrive i a) (.arrive i b)
  | fetch {i : Nat} : AlikeAction ui (.fetch i) (.fetch i)

variable {ui : UiHandlers} {remote : Remote}

theorem fetchOf_of_alike {a b : Arrival} (h : Alike ui a b) : ui.fetchOf a.req = ui.fetchOf b.req := by
  have hheaders : (kForwardableRequestHeaders.filterMap fun name =>
        if getHeaderValue a.req.headers name = [] then none
        else some (name, getHeaderValue a.req.headers name)) =
      kForwardableRequestHeaders.filterMap fun name =>
        if getHeaderValue b.req.headers name = [] then none
        else some (name, getHeaderValue b.req.headers name) :=
    List.filterMap_congr fun name hname => by rw [h.forwarded name hname]
  simp only [UiHandlers.fetchOf, h.path, h.params, hheaders]

theorem signIn_of_alike {a b : Arrival} (h : Alike ui a b) :
    signIn a.random a.req = signIn b.random b.req := by
  simp only [signIn, h.path, h.random]

theorem step_of_alike {a b : Action} (h : AlikeAction ui a b) (s : State) :
    step ui remote s a = step ui remote s b := by
  cases h with
  | arrive h => simp only [step, fetchOf_of_alike h, signIn_of_alike h, h.letsIn]
  | fetch => rfl

/-- **Requests with other credentials lead to the same fetches and to the same answers.** -/
theorem proxy_noninterference {as bs : List Action} (h : List.Forall₂ (AlikeAction ui) as bs) (s : State) :
    run (step ui remote) s as = run (step ui remote) s bs := by
  induction h generalizing s with
  | nil => rfl
  | cons hab _ ih =>
      rw [run_cons, run_cons, step_of_alike hab]
      congr 1
      funext t
      exact ih t

/-- A server with a token. -/
def tokenUi : UiHandlers where
  auth := .new (some {}) (lit "secret") false
  remoteUrl := lit "https://ui.duckdb.org"
  userAgent := lit "harbor-ui/v1.4.0-0.1(linux_amd64)"
  libraryVersion := lit "v1.4.0"
  platform := lit "linux_amd64"
  uiExtensionVersion := lit "0.1"

/-- A request for the page of that server. -/
def pageArrival (headers : Headers) : Arrival where
  ctx :=
    { crypto := ⟨fun _ => Vector.replicate 32 0, fun _ _ => Vector.replicate 32 0⟩
      db := some { resolve := fun _ => some .quackAuthToken }
      signingKey := []
      random := none
      now := 0 }
  random := some (Vector.replicate 16 0)
  req := { path := lit "/", headers }

def bearerArrival : Arrival :=
  pageArrival [(lit "Authorization", lit "Bearer secret"), (lit "Accept", lit "text/html"),
    (lit "Cookie", lit "harbor_session=v1.a.b.c.d")]

def headerArrival : Arrival :=
  pageArrival [(lit "accept", lit "text/html"), (lit "X-Harbor-Token", lit "secret")]

/-- A remote server that answers from the second fetch on. -/
def slowRemote : Remote
  | [_] => .error .read
  | _ => .ok { body := lit "<html></html>" }

theorem proxy_noninterference_bearerOrHeader :
    tokenUi.letsIn bearerArrival = true ∧
      run (step tokenUi slowRemote) {} [.arrive 0 bearerArrival, .fetch 0, .fetch 0] =
        run (step tokenUi slowRemote) {} [.arrive 0 headerArrival, .fetch 0, .fetch 0] := by
  have hin : tokenUi.letsIn bearerArrival = true := by rfl
  have halike : Alike tokenUi bearerArrival headerArrival :=
    { path := rfl
      params := rfl
      forwarded := by decide
      random := rfl
      letsIn := by rfl }
  exact ⟨hin, proxy_noninterference (.cons (.arrive halike) (.cons .fetch (.cons .fetch .nil))) {}⟩

/-! ## What an answer is -/

/-- The fetches for a request. -/
def fetchesFor (i : Nat) (fetched : List (Nat × Fetch)) : List Fetch :=
  (fetched.filter fun entry => entry.1 = i).map Prod.snd

/-- The arrivals of a request. -/
def arrivalsOf (i : Nat) (as : List Action) : List Arrival :=
  as.filterMap fun
    | .arrive j a => if j = i then some a else none
    | .fetch _ => none

/-- The remote server said this to a fetch for the request. -/
def Said (remote : Remote) (fetched : List (Nat × Fetch)) (i : Nat) (fetch : Fetch)
    (result : Except Error Response) : Prop :=
  ∃ before, before ++ [(i, fetch)] <+: fetched ∧ answer remote (before ++ [(i, fetch)]) = result

/-- What has happened to a request that is in a given stage. -/
inductive Story (ui : UiHandlers) (remote : Remote) (as : List Action) (fetched : List (Nat × Fetch))
    (i : Nat) : Stage → Prop
  | idle (harrived : arrivalsOf i as = []) (hfetches : fetchesFor i fetched = []) :
      Story ui remote as fetched i .idle
  | refused {a : Arrival} (harrived : arrivalsOf i as = [a]) (hout : ui.letsIn a = false)
      (hfetches : fetchesFor i fetched = []) :
      Story ui remote as fetched i (.done (signIn a.random a.req))
  | first {a : Arrival} (harrived : arrivalsOf i as = [a]) (hin : ui.letsIn a = true)
      (hfetches : fetchesFor i fetched = []) :
      Story ui remote as fetched i (.first (ui.fetchOf a.req))
  | second {a : Arrival} {e : Error} (harrived : arrivalsOf i as = [a]) (hin : ui.letsIn a = true)
      (hfetches : fetchesFor i fetched = [ui.fetchOf a.req]) (hagain : e.again = true)
      (hsaid : Said remote fetched i (ui.fetchOf a.req) (.error e)) :
      Story ui remote as fetched i (.second (ui.fetchOf a.req))
  | passed {a : Arrival} {result : Except Error Response} (harrived : arrivalsOf i as = [a])
      (hin : ui.letsIn a = true) (hsaid : Said remote fetched i (ui.fetchOf a.req) result)
      (hfetches : fetchesFor i fetched = [ui.fetchOf a.req] ∨
        fetchesFor i fetched = [ui.fetchOf a.req, ui.fetchOf a.req] ∧
          ∃ e : Error, e.again = true ∧ Said remote fetched i (ui.fetchOf a.req) (.error e)) :
      Story ui remote as fetched i (.done (ui.pass (ui.fetchOf a.req) result))

theorem fetchesFor_send (i : Nat) (fetched : List (Nat × Fetch)) (fetch : Fetch) :
    fetchesFor i (fetched ++ [(i, fetch)]) = fetchesFor i fetched ++ [fetch] := by
  simp [fetchesFor]

theorem fetchesFor_send_of_ne {i j : Nat} (h : i ≠ j) (fetched : List (Nat × Fetch)) (fetch : Fetch) :
    fetchesFor j (fetched ++ [(i, fetch)]) = fetchesFor j fetched := by
  simp [fetchesFor, h]

theorem arrivalsOf_arrive (i : Nat) (as : List Action) (a : Arrival) :
    arrivalsOf i (as ++ [.arrive i a]) = arrivalsOf i as ++ [a] := by
  simp [arrivalsOf]

theorem arrivalsOf_arrive_of_ne {i j : Nat} (h : i ≠ j) (as : List Action) (a : Arrival) :
    arrivalsOf j (as ++ [.arrive i a]) = arrivalsOf j as := by
  simp [arrivalsOf, h]

theorem arrivalsOf_fetch (i j : Nat) (as : List Action) :
    arrivalsOf j (as ++ [.fetch i]) = arrivalsOf j as := by
  simp [arrivalsOf]

theorem Said.mono {fetched fetched' : List (Nat × Fetch)} {i : Nat} {fetch : Fetch}
    {result : Except Error Response} (h : Said remote fetched i fetch result) (hle : fetched <+: fetched') :
    Said remote fetched' i fetch result := by
  obtain ⟨before, hbefore, hresult⟩ := h
  exact ⟨before, hbefore.trans hle, hresult⟩

theorem said_send (remote : Remote) (fetched : List (Nat × Fetch)) (i : Nat) (fetch : Fetch) :
    Said remote (fetched ++ [(i, fetch)]) i fetch (answer remote (fetched ++ [(i, fetch)])) :=
  ⟨fetched, List.prefix_rfl, rfl⟩

/-- What happens to the others leaves a story as it is. -/
theorem Story.mono {as as' : List Action} {fetched fetched' : List (Nat × Fetch)} {i : Nat} {stage : Stage}
    (h : Story ui remote as fetched i stage) (harrivals : arrivalsOf i as' = arrivalsOf i as)
    (hfetches : fetchesFor i fetched' = fetchesFor i fetched) (hle : fetched <+: fetched') :
    Story ui remote as' fetched' i stage := by
  cases h with
  | idle ha hf => exact .idle (harrivals.trans ha) (hfetches.trans hf)
  | refused ha hout hf => exact .refused (harrivals.trans ha) hout (hfetches.trans hf)
  | first ha hin hf => exact .first (harrivals.trans ha) hin (hfetches.trans hf)
  | second ha hin hf hagain hsaid =>
      exact .second (harrivals.trans ha) hin (hfetches.trans hf) hagain (hsaid.mono hle)
  | passed ha hin hsaid hf =>
      refine .passed (harrivals.trans ha) hin (hsaid.mono hle) ?_
      rw [hfetches]
      exact hf.imp_right fun ⟨htwo, e, hagain, herror⟩ => ⟨htwo, e, hagain, herror.mono hle⟩

/-- What a step does: a request comes in, or one of the requests fetches. -/
theorem step_cases {s t : State} {action : Action} (h : step ui remote s action = some t) :
    (∃ i a, action = .arrive i a ∧ s.stages i = .idle ∧
      t = s.setStage i
        (if ui.letsIn a then .first (ui.fetchOf a.req) else .done (signIn a.random a.req))) ∨
    (∃ i fetch, action = .fetch i ∧ s.stages i = .first fetch ∧
      ((∃ e : Error, e.again = true ∧ answer remote (s.send i fetch).fetched = .error e ∧
          t = (s.send i fetch).setStage i (.second fetch)) ∨
        t = (s.send i fetch).setStage i (.done (ui.pass fetch (answer remote (s.send i fetch).fetched))))) ∨
    (∃ i fetch, action = .fetch i ∧ s.stages i = .second fetch ∧
      t = (s.send i fetch).setStage i (.done (ui.pass fetch (answer remote (s.send i fetch).fetched)))) := by
  cases action with
  | arrive i a =>
      cases hstage : s.stages i with
      | idle =>
          refine .inl ⟨i, a, rfl, hstage, ?_⟩
          simp only [step, hstage] at h
          split at h <;> simp_all
      | first fetch => simp [step, hstage] at h
      | second fetch => simp [step, hstage] at h
      | done res => simp [step, hstage] at h
  | fetch i =>
      cases hstage : s.stages i with
      | idle => simp [step, hstage] at h
      | first fetch =>
          refine .inr (.inl ⟨i, fetch, rfl, hstage, ?_⟩)
          simp only [step, hstage] at h
          cases hresult : answer remote (s.send i fetch).fetched with
          | ok res =>
              rw [hresult] at h
              exact .inr (by simpa using h.symm)
          | error e =>
              rw [hresult] at h
              dsimp only at h
              by_cases hagain : e.again = true
              · rw [if_pos hagain] at h
                exact .inl ⟨e, hagain, rfl, by simpa using h.symm⟩
              · rw [if_neg hagain] at h
                exact .inr (by simpa using h.symm)
      | second fetch =>
          simp only [step, hstage] at h
          exact .inr (.inr ⟨i, fetch, rfl, hstage, by simpa using h.symm⟩)
      | done res => simp [step, hstage] at h

@[simp] theorem setStage_fetched (s : State) (i : Nat) (stage : Stage) :
    (s.setStage i stage).fetched = s.fetched := rfl

@[simp] theorem send_fetched (s : State) (i : Nat) (fetch : Fetch) :
    (s.send i fetch).fetched = s.fetched ++ [(i, fetch)] := rfl

theorem setStage_stages_self (s : State) (i : Nat) (stage : Stage) :
    (s.setStage i stage).stages i = stage := by
  simp [State.setStage]

theorem setStage_stages_of_ne (s : State) {i j : Nat} (h : i ≠ j) (stage : Stage) :
    (s.setStage i stage).stages j = s.stages j := by
  simp [State.setStage, Ne.symm h]

/-- Every request has its story. -/
def Stories (ui : UiHandlers) (remote : Remote) (as : List Action) (s : State) : Prop :=
  ∀ i, Story ui remote as s.fetched i (s.stages i)

/-- A fetch of one request is nothing to the others. -/
theorem Stories.fetch {as : List Action} {s : State} (h : Stories ui remote as s) {i : Nat} {fetch : Fetch}
    {stage : Stage}
    (hself : Story ui remote (as ++ [.fetch i]) (s.fetched ++ [(i, fetch)]) i stage) :
    Stories ui remote (as ++ [.fetch i]) ((s.send i fetch).setStage i stage) := by
  intro j
  by_cases hij : i = j
  · subst hij
    rw [setStage_stages_self]
    exact hself
  · rw [setStage_stages_of_ne _ hij]
    exact (h j).mono (arrivalsOf_fetch i j as) (fetchesFor_send_of_ne hij _ _) (List.prefix_append _ _)

theorem stories_step {as : List Action} {s t : State} {action : Action} (h : Stories ui remote as s)
    (hstep : step ui remote s action = some t) : Stories ui remote (as ++ [action]) t := by
  rcases step_cases hstep with ⟨i, a, rfl, hstage, rfl⟩ | ⟨i, fetch, rfl, hstage, hnext⟩ |
    ⟨i, fetch, rfl, hstage, rfl⟩
  · have hi := h i
    rw [hstage] at hi
    obtain ⟨harrived, hfetches⟩ : arrivalsOf i as = [] ∧ fetchesFor i s.fetched = [] := by
      cases hi with
      | idle ha hf => exact ⟨ha, hf⟩
    have hnow : arrivalsOf i (as ++ [.arrive i a]) = [a] := by
      rw [arrivalsOf_arrive, harrived, List.nil_append]
    intro j
    by_cases hij : i = j
    · subst hij
      rw [setStage_stages_self]
      cases hin : ui.letsIn a with
      | true => exact .first hnow hin hfetches
      | false => exact .refused hnow hin hfetches
    · rw [setStage_stages_of_ne _ hij]
      exact (h j).mono (arrivalsOf_arrive_of_ne hij as a) rfl List.prefix_rfl
  · have hi := h i
    rw [hstage] at hi
    have hsaid := said_send remote s.fetched i fetch
    cases hi with
    | @first a ha hin hf =>
        have hone : fetchesFor i (s.fetched ++ [(i, ui.fetchOf a.req)]) = [ui.fetchOf a.req] := by
          rw [fetchesFor_send, hf, List.nil_append]
        have harrived := (arrivalsOf_fetch i i as).trans ha
        rcases hnext with ⟨e, hagain, herror, rfl⟩ | rfl
        · exact h.fetch (.second harrived hin hone hagain (herror ▸ hsaid))
        · exact h.fetch (.passed harrived hin hsaid (.inl hone))
  · have hi := h i
    rw [hstage] at hi
    have hsaid := said_send remote s.fetched i fetch
    cases hi with
    | @second a e ha hin hf hagain herror =>
        have htwo : fetchesFor i (s.fetched ++ [(i, ui.fetchOf a.req)]) =
            [ui.fetchOf a.req, ui.fetchOf a.req] := by
          rw [fetchesFor_send, hf, List.singleton_append]
        have harrived := (arrivalsOf_fetch i i as).trans ha
        exact h.fetch (.passed harrived hin hsaid
          (.inr ⟨htwo, e, hagain, herror.mono (List.prefix_append _ _)⟩))

theorem stories_run {as : List Action} {t : State} (hrun : run (step ui remote) {} as = some t) :
    Stories ui remote as t :=
  run_history (fun _ => .idle rfl rfl) (fun _ _ _ _ => stories_step) hrun

/-- **Only requests that are let in are fetched for, at most twice, and their answers are what the remote
server said to one of these fetches; the others get the sign-in page or a 401.** -/
theorem proxy_answers {as : List Action} {t : State} {i : Nat} {a : Arrival}
    (hrun : run (step ui remote) {} as = some t) (harrived : .arrive i a ∈ as) :
    (ui.letsIn a = false → t.stages i = .done (signIn a.random a.req) ∧ fetchesFor i t.fetched = []) ∧
      (ui.letsIn a = true →
        (∃ n ≤ 2, fetchesFor i t.fetched = List.replicate n (ui.fetchOf a.req) ∧
          (n = 2 → ∃ e : Error, e.again = true ∧ Said remote t.fetched i (ui.fetchOf a.req) (.error e))) ∧
        ∀ res, t.stages i = .done res →
          ∃ result, Said remote t.fetched i (ui.fetchOf a.req) result ∧
            res = ui.pass (ui.fetchOf a.req) result) := by
  have hmem : a ∈ arrivalsOf i as := List.mem_filterMap.mpr ⟨_, harrived, if_pos rfl⟩
  have hself : ∀ {b}, arrivalsOf i as = [b] → b = a := fun hb => by simpa [hb, eq_comm] using hmem
  have hstory := stories_run hrun i
  generalize t.stages i = stage at hstory ⊢
  cases hstory with
  | idle ha => simp [ha] at hmem
  | refused ha hout hf =>
      cases hself ha
      exact ⟨fun _ => ⟨rfl, hf⟩, fun hin => absurd hin (by simp [hout])⟩
  | first ha hin hf =>
      cases hself ha
      exact ⟨fun hout => absurd hin (by simp [hout]), fun _ => ⟨⟨0, by simp, hf, by simp⟩, by simp⟩⟩
  | second ha hin hf =>
      cases hself ha
      exact ⟨fun hout => absurd hin (by simp [hout]), fun _ => ⟨⟨1, by simp, hf, by simp⟩, by simp⟩⟩
  | @passed _ result ha hin hsaid hf =>
      cases hself ha
      refine ⟨fun hout => absurd hin (by simp [hout]), fun _ => ⟨?_, ?_⟩⟩
      · rcases hf with hone | ⟨htwo, hfirst⟩
        · exact ⟨1, by simp, hone, by simp⟩
        · exact ⟨2, le_rfl, htwo, fun _ => hfirst⟩
      · rintro res hres
        cases hres
        exact ⟨result, hsaid, rfl⟩

def proxyTrace : List Action :=
  [.arrive 0 bearerArrival, .fetch 0, .arrive 1 (pageArrival []), .fetch 0]

theorem proxy_answers_twoRequests :
    ∃ t, run (step tokenUi slowRemote) {} proxyTrace = some t ∧
      t.stages 1 = .done (signIn (some (Vector.replicate 16 0)) (pageArrival []).req) ∧
      ∀ res, t.stages 0 = .done res →
        ∃ result, Said slowRemote t.fetched 0 (tokenUi.fetchOf bearerArrival.req) result ∧
          res = tokenUi.pass (tokenUi.fetchOf bearerArrival.req) result := by
  have hin : tokenUi.letsIn bearerArrival = true := by rfl
  have hout : tokenUi.letsIn (pageArrival []) = false := by rfl
  obtain ⟨t, hrun⟩ : ∃ t, run (step tokenUi slowRemote) {} proxyTrace = some t := by
    simp only [proxyTrace, run_cons, step, hin, hout]
    exact ⟨_, rfl⟩
  have hpassed := (proxy_answers hrun (i := 0) (a := bearerArrival) (by simp [proxyTrace])).2 hin
  have hrefused := (proxy_answers hrun (i := 1) (a := pageArrival []) (by simp [proxyTrace])).1 hout
  exact ⟨t, hrun, hrefused.1, hpassed.2⟩

/-! ## The scripts of the sign-in page -/

/-- The answer is the page. -/
def ServesPage (random : Option (Vector UInt8 16)) (req : Request) : Prop :=
  (req.path = lit "/" ∨ req.path = []) ∧ random.isSome = true

/-- A script with this tag runs in the document of an answer: its policy, should it have one, admits it. -/
def RunsIn (res : Response) (tag : Bytes) : Prop :=
  ∀ field ∈ res.headers, Bytes.lower field.1 = lit "content-security-policy" → Admits field.2 tag

theorem contentType_ne_policy : Bytes.lower (lit "Content-Type") ≠ lit "content-security-policy" := by
  decide

theorem signIn_page {req : Request} (h : req.path = lit "/" ∨ req.path = []) (random : Vector UInt8 16) :
    signIn (some random) req =
      { status := 200
        headers :=
          [(lit "Content-Security-Policy", contentSecurityPolicy (generateScriptNonce random.toList)),
            (lit "Content-Type", lit "text/html; charset=utf-8")]
        body := renderLoginPage (generateScriptNonce random.toList) } := by
  have herase : ∀ value, eraseHeader [(lit "Content-Security-Policy", value)] (lit "Content-Type") =
      [(lit "Content-Security-Policy", value)] := by
    intro value
    have hother : Bytes.lower (lit "Content-Security-Policy") ≠ Bytes.lower (lit "Content-Type") := by decide
    simp [eraseHeader, hother]
  rw [signIn, if_pos h]
  simp only [Response.setContent, Response.setHeader, List.nil_append, herase, List.singleton_append]

/-- The other answers have no script and no policy. -/
theorem signIn_text {random : Option (Vector UInt8 16)} {req : Request} (h : ¬ ServesPage random req) :
    scriptTags (signIn random req).body = [] ∧ ∀ tag, RunsIn (signIn random req) tag := by
  have htype : ∀ {status : Nat} {body type tag : Bytes},
      RunsIn (Response.setContent { status := status } body type) tag := by
    intro status body type tag field hfield hname
    cases List.mem_singleton.mp hfield
    exact absurd hname contentType_ne_policy
  by_cases hpath : req.path = lit "/" ∨ req.path = []
  · cases random with
    | some bytes => exact absurd ⟨hpath, rfl⟩ h
    | none =>
        unfold signIn
        rw [if_pos hpath]
        exact ⟨scriptTags_lit rfl, fun _ => htype⟩
  · unfold signIn
    rw [if_neg hpath]
    exact ⟨scriptTags_of_opensNone rfl, fun _ => htype⟩

/-- **The sign-in page is the only answer with a script, it has one, and under the policy of such an answer
the script of another page runs only if the random bytes were the same.** -/
theorem signIn_scripts (random random' : Option (Vector UInt8 16)) (req req' : Request) :
    (ServesPage random' req' ∧ (scriptTags (signIn random' req').body).length = 1 ∨
        ¬ ServesPage random' req' ∧ scriptTags (signIn random' req').body = []) ∧
      ((∀ tag ∈ scriptTags (signIn random' req').body, RunsIn (signIn random req) tag) ↔
        (ServesPage random req ∧ ServesPage random' req' → random' = random)) := by
  by_cases hpage' : ServesPage random' req'
  swap
  · have hnone := (signIn_text hpage').1
    refine ⟨.inr ⟨hpage', hnone⟩, fun _ h => absurd h.2 hpage', fun _ => ?_⟩
    rw [hnone]
    exact List.forall_mem_nil _
  have ⟨hpath', hsome'⟩ := hpage'
  obtain ⟨bytes', rfl⟩ := Option.isSome_iff_exists.mp hsome'
  have hbody : (signIn (some bytes') req').body = renderLoginPage (generateScriptNonce bytes'.toList) := by
    rw [signIn_page hpath']
  refine ⟨.inl ⟨hpage', by rw [hbody, scriptTags_renderLoginPage]; rfl⟩, ?_⟩
  by_cases hpage : ServesPage random req
  swap
  · exact ⟨fun _ h => absurd h.1 hpage, fun _ tag _ => (signIn_text hpage).2 tag⟩
  obtain ⟨hpath, hsome⟩ := hpage
  obtain ⟨bytes, rfl⟩ := Option.isSome_iff_exists.mp hsome
  have hruns : ∀ tag, RunsIn (signIn (some bytes) req) tag ↔
      Admits (contentSecurityPolicy (generateScriptNonce bytes.toList)) tag := by
    intro tag
    have hpolicy : Bytes.lower (lit "Content-Security-Policy") = lit "content-security-policy" := by decide
    rw [RunsIn, signIn_page hpath, List.forall_mem_cons, List.forall_mem_singleton]
    exact ⟨fun h => h.1 hpolicy, fun h => ⟨fun _ => h, fun hname => absurd hname contentType_ne_policy⟩⟩
  simp only [hruns]
  rw [hbody, admits_iff, Vector.toList_inj]
  exact ⟨fun h _ => congrArg some h, fun h => Option.some_inj.mp (h ⟨⟨hpath, rfl⟩, ⟨hpath', rfl⟩⟩)⟩

end Harbor.Ui.Proxy

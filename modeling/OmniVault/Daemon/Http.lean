import OmniVault.Go.Strings

/-!
The parts of `net/url` and `net/http` that carry a request from the
integration tests' client to the daemon's handlers.

The client builds the text `"http://localhost" + target` and `url.Parse`s
it. A `#` starts the fragment and the first `?` the query, and the path
after the host is unescaped, each `%XX` read as the byte `0xXX`. The
request line carries `URL.EscapedPath()`, which the daemon unescapes back
to the same `URL.Path`, and the raw query as it was. `ServeMux` cleans the
path as `path.Clean` does, keeping a final slash. The model cleans the
unescaped path, where `ServeMux` cleans `URL.EscapedPath()`; the two differ
only on a path with an escaped `/` or `.`. The mux redirects with 301
when cleaning changes the path, or when a pattern `p/` is asked for as
`p`. When a redirect answers anything but `GET` or `HEAD`, the client
repeats the request as a `GET` without its body. `url.ParseQuery` splits
the query at `&` and each pair at its first `=`, then unescapes both
halves, reading `+` as a space.

The client's targets all start with `/`, so the host is `localhost` and
the path is what follows it.
-/

namespace OmniVault.Http

/-- An HTTP method; the handlers tell apart only these. -/
inductive Method where
  | get
  | head
  | post
  | put
  | delete
  | other
  deriving DecidableEq

/-! ## Escapes -/

/-- The value of a hexadecimal digit. -/
def unhex (c : UInt8) : Option Nat :=
  if 0x30 ≤ c.toNat ∧ c.toNat ≤ 0x39 then some (c.toNat - 0x30)
  else if 0x61 ≤ c.toNat ∧ c.toNat ≤ 0x66 then some (c.toNat - 0x57)
  else if 0x41 ≤ c.toNat ∧ c.toNat ≤ 0x46 then some (c.toNat - 0x37)
  else none

/-- `url.unescape(s, mode)`: `%XX` is the byte `0xXX`, and in a query a `+`
is a space; a `%` without two hex digits after it is an error. -/
def unescape (query : Bool) : Bytes → Option Bytes
  | [] => some []
  | c :: rest =>
    if c = 0x25 then
      match rest with
      | a :: b :: rest' => do
        let hi ← unhex a
        let lo ← unhex b
        (UInt8.ofNat (hi * 16 + lo) :: ·) <$> unescape query rest'
      | _ => none
    else ((if query ∧ c = 0x2B then 0x20 else c) :: ·) <$> unescape query rest

/-- `strings.Cut(s, sep)` at the first byte `sep`. -/
def cut (s : Bytes) (sep : UInt8) : Bytes × Option Bytes :=
  match s.span (· ≠ sep) with
  | (before, []) => (before, none)
  | (before, _ :: after) => (before, some after)

theorem cut_cons_of_ne {c sep : UInt8} (s : Bytes) (h : c ≠ sep) :
    cut (c :: s) sep = (c :: (cut s sep).1, (cut s sep).2) := by
  have hc : decide (c ≠ sep) = true := by simpa using h
  unfold cut
  rw [List.span_eq_take_drop, List.span_eq_take_drop, List.takeWhile_cons_of_pos (p := fun x => decide (x ≠ sep)) hc,
    List.dropWhile_cons_of_pos (p := fun x => decide (x ≠ sep)) hc]
  cases List.dropWhile (· ≠ sep) s <;> rfl

theorem cut_of_not_mem {s : Bytes} {sep : UInt8} (h : sep ∉ s) : cut s sep = (s, none) := by
  induction s with
  | nil => rfl
  | cons c s ih =>
    rw [List.mem_cons, not_or] at h
    rw [cut_cons_of_ne s (Ne.symm h.1), ih h.2]

theorem cut_append_cons {s t : Bytes} {sep : UInt8} (h : sep ∉ s) : cut (s ++ sep :: t) sep = (s, some t) := by
  induction s with
  | nil => simp [cut]
  | cons c s ih =>
    rw [List.mem_cons, not_or] at h
    rw [List.cons_append, cut_cons_of_ne _ (Ne.symm h.1), ih h.2]

/-- A text with no `%` unescapes to itself, outside a query. -/
theorem unescape_of_no_escape {s : Bytes} (h : 0x25 ∉ s) : unescape false s = some s := by
  induction s with
  | nil => rfl
  | cons c s ih =>
    rw [List.mem_cons, not_or] at h
    unfold unescape
    rw [if_neg (Ne.symm h.1), ih h.2]
    rfl

/-! ## Queries -/

/-- `url.ParseQuery(query)`, its pairs in order. A pair holding a `;` or a
bad escape is dropped, with an error that `URL.Query` ignores. -/
def parseQuery (query : Bytes) : List (Bytes × Bytes) :=
  (query.splitOn 0x26).filterMap fun pair =>
    if pair = [] ∨ 0x3B ∈ pair then none
    else
      let (k, v) := cut pair 0x3D
      match unescape true k, unescape true (v.getD []) with
      | some k, some v => some (k, v)
      | _, _ => none

/-- `r.URL.Query().Get(key)`: the first value of `key`, or the empty string. -/
def queryGet (query key : Bytes) : Bytes :=
  match (parseQuery query).find? (·.1 = key) with
  | some (_, v) => v
  | none => []

/-! ## Paths -/

/-- `path.Clean` of a rooted path, on its segments: empty and `.` segments
dropped, and `..` dropping the one before it, never above the root. `acc`
holds the segments kept so far, the last first. -/
def cleanSegments : List Bytes → List Bytes → List Bytes
  | acc, [] => acc.reverse
  | acc, s :: rest =>
    if s = [] ∨ s = [0x2E] then cleanSegments acc rest
    else if s = [0x2E, 0x2E] then cleanSegments acc.tail rest
    else cleanSegments (s :: acc) rest

/-- `cleanPath(p)` of `net/http`: rooted, cleaned, and its final slash kept. -/
def cleanPath (p : Bytes) : Bytes :=
  if p = [] then [0x2F]
  else
    let p := if p.head? = some 0x2F then p else 0x2F :: p
    let np := 0x2F :: [0x2F].intercalate (cleanSegments [] (p.splitOn 0x2F))
    if p.getLast? = some 0x2F ∧ np ≠ [0x2F] then np ++ [0x2F] else np

/-- The daemon's handlers, each registered by `registerRoutes` under its pattern. -/
inductive Route where
  | status
  | init
  | unlock
  | lock
  | secrets
  | secret
  | stop
  deriving DecidableEq

def Route.pattern : Route → Bytes
  | .status => .ofString "/status"
  | .init => .ofString "/init"
  | .unlock => .ofString "/unlock"
  | .lock => .ofString "/lock"
  | .secrets => .ofString "/secrets"
  | .secret => .ofString "/secret/"
  | .stop => .ofString "/stop"

def routes : List Route := [.status, .init, .unlock, .lock, .secrets, .secret, .stop]

/-- A pattern ending in a slash matches every path under it; any other
matches only itself. -/
def Route.matches (r : Route) (path : Bytes) : Bool :=
  if r.pattern.getLast? = some 0x2F then Bytes.hasPrefix path r.pattern else path = r.pattern

/-- What `ServeMux` does with a request for a path. -/
inductive Dispatch where
  | handle (r : Route)
  /-- 301 to this path, with the query kept. -/
  | redirect (path : Bytes)
  | notFound
  deriving DecidableEq

/-- `mux.findHandler`: a path that cleaning changes, or a pattern `p/` asked
for as `p`, is redirected; otherwise the route that matches handles it. -/
def dispatch (path : Bytes) : Dispatch :=
  let c := cleanPath path
  match routes.find? (·.matches c) with
  | none => if routes.any (·.pattern = c ++ [0x2F]) then .redirect (c ++ [0x2F]) else .notFound
  | some r => if c ≠ path then .redirect c else .handle r

/-- Every path under `/secret/` is `handleSecret`'s, and no other route's. -/
theorem Route.matches_secret_path (r : Route) (x : Bytes) :
    r.matches (Route.secret.pattern ++ x) = decide (r = .secret) := by
  have other : ∀ r : Route, r.pattern.getLast? ≠ some 0x2F → ¬ Route.secret.pattern <+: r.pattern →
      r.matches (Route.secret.pattern ++ x) = false := fun r h₁ h₂ => by
    simp only [Route.matches, h₁, if_false]
    exact decide_eq_false fun e => h₂ (e ▸ List.prefix_append _ _)
  cases r
  case secret => simp [Route.matches, show Route.secret.pattern.getLast? = some 0x2F by decide]
  all_goals exact other _ (by decide) (by decide)

theorem dispatch_secret {x : Bytes} (h : cleanPath (Route.secret.pattern ++ x) = Route.secret.pattern ++ x) :
    dispatch (Route.secret.pattern ++ x) = .handle .secret := by
  simp [dispatch, h, routes, List.find?, Route.matches_secret_path]

/-! ## The client -/

/-- A byte `url.Parse` refuses: an ASCII control character or DEL. -/
def isCtl (c : UInt8) : Bool := c.toNat < 0x20 || c.toNat = 0x7F

/-- The `URL.Path` and `URL.RawQuery` of `url.Parse("http://localhost" +
target)`, or `none` when it fails: on a control byte before the fragment,
or on a bad escape in the path or in a fragment that is not empty. -/
def parseTarget (target : Bytes) : Option (Bytes × Bytes) :=
  let (u, frag) := cut target 0x23
  if u.any isCtl then none
  else if frag.any (fun f => f ≠ [] ∧ (unescape false f).isNone) then none
  else
    let (p, q) := cut u 0x3F
    (unescape false p).map (·, q.getD [])

/-- A target with no `#`, no control byte and no `%` before its first `?`
has the text before that `?` as its path and the rest as its query. -/
theorem parseTarget_query {p q : Bytes} (hp : 0x23 ∉ p ∧ 0x3F ∉ p ∧ 0x25 ∉ p ∧ p.any isCtl = false)
    (hq : 0x23 ∉ q ∧ q.any isCtl = false) : parseTarget (p ++ 0x3F :: q) = some (p, q) := by
  obtain ⟨hp₁, hp₂, hp₃, hp₄⟩ := hp
  have hfrag : 0x23 ∉ p ++ 0x3F :: q := by simp [hp₁, hq.1]
  have hctl : isCtl 0x3F = false := by decide
  simp [parseTarget, cut_of_not_mem hfrag, hp₄, hq.2, hctl, cut_append_cons hp₂, unescape_of_no_escape hp₃]

/-- A request as a handler sees it. -/
structure Request where
  method : Method
  path : Bytes
  rawQuery : Bytes
  body : Bytes

/-- The request the daemon's handler gets from the client's
`http.NewRequestWithContext(ctx, method, "http://localhost"+path, body)`,
when `url.Parse` accepts the text. -/
def clientRequest (method : Method) (target body : Bytes) : Option Request :=
  (parseTarget target).map fun (p, q) => ⟨method, p, q, body⟩

end OmniVault.Http

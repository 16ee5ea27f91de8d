import OmniVault.Daemon.Http
import OmniVault.Store.Reachable

/-!
The daemon: `Server`, with its `EncryptedStore`, its auto-lock timer and its
shutdown, as events on one state.

Each handler holds `s.mu` while it touches the store (`handleSecrets` and
`handleStatus` hold it for reading), so each is one event, from start to
end. `time.AfterFunc` arms a timer. When it expires, its callback starts
in a goroutine of its own and waits for `s.mu`; then it locks the store.
The expiry and the callback are two events, and other handlers may run
between them. `Stop` disarms a timer that has not expired; on one that
has, it does nothing, and the callback still runs.

`Shutdown` takes no lock, so each of its steps is an event, and handlers
and callbacks run between them. A handler may run until `server.Shutdown`
has closed the listener and the handlers it waits for have returned. A
callback may run until the process exits. `handleStop` answers and starts
the same `Shutdown` in a goroutine, so the `shutdown` events stand for it
as they stand for a signal or a cancelled context. When `Serve` fails,
`Run` returns without `Shutdown`.

The texts of `os` errors and of library errors are not modelled: `Error()`
renders them as the operation or the package. `StatusResponse` keeps the
fields the store gives it, not the uptime or the unlock time. Each list
item leaves out its tags, which `handleSecrets` lists in the map's random
order.
-/

namespace OmniVault.Daemon

open Store Vault Json Http

/-! ## Errors and replies -/

/-- `err.Error()`. -/
def errorText : GoError → Bytes
  | .text msg => msg
  | .wrap context cause => context ++ Bytes.ofString ": " ++ errorText cause
  | .secretNotFound => .ofString "secret not found"
  | .os op _ => op
  | .lib source => source

/-- `strings.Contains(s, sub)`. -/
def contains (s sub : Bytes) : Bool := decide (sub <:+: s)

def errCodeVaultLocked : Bytes := .ofString "VAULT_LOCKED"
def errCodeVaultNotFound : Bytes := .ofString "VAULT_NOT_FOUND"
def errCodeSecretNotFound : Bytes := .ofString "SECRET_NOT_FOUND"
def errCodeInvalidPassword : Bytes := .ofString "INVALID_PASSWORD"
def errCodeInvalidRequest : Bytes := .ofString "INVALID_REQUEST"
def errCodeInternalError : Bytes := .ofString "INTERNAL_ERROR"
def errCodeAlreadyExists : Bytes := .ofString "ALREADY_EXISTS"

/-- `SecretResponse`; a time the secret does not have is Go's zero time,
`none` here. -/
structure SecretResponse where
  path : Bytes
  value : Bytes
  fields : GoMap Bytes
  tags : GoMap Bytes
  createdAt : Option Time
  updatedAt : Option Time
  deriving DecidableEq

/-- `SecretListItem`, without its tags. -/
structure SecretListItem where
  path : Bytes
  hasValue : Bool
  hasFields : Bool
  updatedAt : Option Time
  deriving DecidableEq

/-- What a handler gives `writeJSON`, or what `ServeMux` answers itself. -/
inductive Reply where
  /-- `ErrorResponse{Error, Code}`. -/
  | error (message code : Bytes)
  /-- `SuccessResponse{Success: true, Message}`. -/
  | success (message : Bytes)
  | secret (r : SecretResponse)
  /-- `ListResponse{Secrets, Count}`, the count being the items' number. -/
  | list (items : List SecretListItem)
  /-- `StatusResponse{Running: true, Locked, VaultExists, SecretCount}`. -/
  | status (locked vaultExists : Bool) (secretCount : Nat)
  /-- `ServeMux`'s redirect to a cleaned path. -/
  | redirect (path : Bytes)
  /-- `http.NotFound`. -/
  | notFound
  deriving DecidableEq

structure Response where
  status : Nat
  reply : Reply
  deriving DecidableEq

def methodNotAllowed : Response := ⟨405, .error (.ofString "method not allowed") []⟩

def invalidBody : Response := ⟨400, .error (.ofString "invalid request body") errCodeInvalidRequest⟩

def internalError (e : GoError) : Response := ⟨500, .error (errorText e) errCodeInternalError⟩

def vaultLocked : Response := ⟨403, .error (.ofString "vault is locked") errCodeVaultLocked⟩

/-! ## Request bodies -/

/-- `json.NewDecoder(r.Body).Decode(&v)`: the first value of the body,
decoded into `zero`; what follows it is not read. -/
def decodeBody {σ : Type} (field : Bytes → Json → σ → Option σ) (zero : σ) (body : Bytes) : Option σ := do
  let ps := Utf8.pieces body
  let (j, _) ← parseValue (2 * ps.length + 2) ps
  decodeStruct field j zero

/-- The one member of `InitRequest` and `UnlockRequest`. -/
def passwordField (key : Bytes) (v : Json) (password : Bytes) : Option Bytes :=
  if selects (.ofString "password") key then decodeString v password else some password

/-- `SetSecretRequest`. -/
structure SetSecretRequest where
  value : Bytes := []
  fields : GoMap Bytes := GoMap.empty
  tags : GoMap Bytes := GoMap.empty
  deriving DecidableEq

def SetSecretRequest.storeField (key : Bytes) (v : Json) (r : SetSecretRequest) : Option SetSecretRequest :=
  if selects (.ofString "value") key then (fun x => { r with value := x }) <$> decodeString v r.value
  else if selects (.ofString "fields") key then (fun x => { r with fields := x }) <$> decodeStringMap v r.fields
  else if selects (.ofString "tags") key then (fun x => { r with tags := x }) <$> decodeStringMap v r.tags
  else some r

/-- The secret `setSecret` hands to the store: the request's value, fields
and tags, and no times. -/
def SetSecretRequest.secret (r : SetSecretRequest) : Secret :=
  { value := r.value, fields := r.fields, metadata := { tags := r.tags } }

/-- `secret.String()`. -/
def secretString (s : Secret) : Bytes := if s.valueBytes.length > 0 then s.valueBytes else s.value

/-! ## The server's state -/

/-- What became of a timer `time.AfterFunc` made. -/
inductive TimerState where
  /-- Waiting for its duration to pass. -/
  | armed
  /-- `Stop` came first: it never fires. -/
  | stopped
  /-- Expired: its callback has started and waits for `s.mu`. -/
  | fired
  /-- Its callback has run. -/
  | ran
  deriving DecidableEq

/-- `t.Stop()`: only a timer that has not expired is stopped. -/
def TimerState.stop : TimerState → TimerState
  | .armed => .stopped
  | t => t

/-- How far `Run` and `Shutdown` have got. -/
inductive Phase where
  | serving
  /-- `Shutdown` has stopped the auto-lock timer. -/
  | timerStopped
  /-- `Shutdown` has called `store.Lock()`. -/
  | storeLocked
  /-- `server.Shutdown` has returned: no handler runs any more. -/
  | closed
  /-- `Run` has returned, or the process has exited. -/
  | exited
  deriving DecidableEq

/-- Handlers run until `server.Shutdown` has returned. -/
def Phase.serves : Phase → Bool
  | .serving | .timerStopped | .storeLocked => true
  | .closed | .exited => false

/-- `daemon.Server`: the world of its store, `s.autoLockTimer` as the
number of the timer it holds, and every timer made so far by number. -/
structure Server where
  world : World := {}
  autoLockTimer : Option Nat := none
  timers : List TimerState := []
  phase : Phase := .serving

/-- Some auto-lock is still to come: a timer armed, or one whose callback waits. -/
def Server.autoLockPending (s : Server) : Bool := s.timers.any fun t => t = .armed || t = .fired

/-- `s.store.IsLocked()`. -/
def Server.isLocked (s : Server) : Bool := s.world.store.isLockedUnsafe

/-- `s.store.VaultExists()`: `os.Stat` of the metadata file. -/
def Server.vaultExists (s : Server) : Bool := (s.world.disk.get .meta).isSome

/-- `if s.autoLockTimer != nil { s.autoLockTimer.Stop() }`. -/
def Server.stopTimer (s : Server) : Server :=
  match s.autoLockTimer with
  | some i => { s with timers := s.timers.modify TimerState.stop i }
  | none => s

/-- `s.resetAutoLock()`: the timer stopped, and a new one armed in its place. -/
def Server.resetAutoLock (s : Server) : Server :=
  let s := s.stopTimer
  { s with timers := s.timers ++ [.armed], autoLockTimer := some s.timers.length }

@[simp] theorem Server.stopTimer_world (s : Server) : s.stopTimer.world = s.world := by
  unfold Server.stopTimer; split <;> rfl

@[simp] theorem Server.stopTimer_phase (s : Server) : s.stopTimer.phase = s.phase := by
  unfold Server.stopTimer; split <;> rfl

@[simp] theorem Server.resetAutoLock_world (s : Server) : s.resetAutoLock.world = s.world := by
  simp [Server.resetAutoLock]

@[simp] theorem Server.resetAutoLock_phase (s : Server) : s.resetAutoLock.phase = s.phase := by
  simp [Server.resetAutoLock]

/-! ## Handlers -/

section Handlers

variable (P : Primitives) (env : Env)

/-- The end of a handler after a store method: on success `onOk`; on an
error 500 with its text; a panic ends the handler with no response. -/
def Server.finish {α : Type} (s : Server) (r : EStateM.Result Fault World α)
    (onOk : α → Server → Server × Option Response) : Server × Option Response :=
  match r with
  | .ok a w => onOk a { s with world := w }
  | .error (.error e) w => ({ s with world := w }, some (internalError e))
  | .error (.panic _) w => ({ s with world := w }, none)

/-- `s.handleStatus`. -/
def Server.handleStatus (s : Server) (r : Request) : Server × Option Response :=
  if r.method ≠ .get then (s, some methodNotAllowed)
  else
    let count := (resultValue ((EncryptedStore.secretCount).run s.world)).getD 0
    (s, some ⟨200, .status s.isLocked s.vaultExists count⟩)

/-- `s.handleInit`. -/
def Server.handleInit (s : Server) (r : Request) : Server × Option Response :=
  if r.method ≠ .post then (s, some methodNotAllowed)
  else match decodeBody passwordField [] r.body with
    | none => (s, some invalidBody)
    | some password =>
      if password.length < 8 then
        (s, some ⟨400, .error (.ofString "password must be at least 8 characters") errCodeInvalidRequest⟩)
      else if s.vaultExists then (s, some ⟨409, .error (.ofString "vault already exists") errCodeAlreadyExists⟩)
      else s.finish ((EncryptedStore.init P env password).run s.world) fun _ s =>
        (s.resetAutoLock, some ⟨200, .success (.ofString "vault initialized")⟩)

/-- `s.handleUnlock`: an error whose text mentions "invalid password" is a 401. -/
def Server.handleUnlock (s : Server) (r : Request) : Server × Option Response :=
  if r.method ≠ .post then (s, some methodNotAllowed)
  else match decodeBody passwordField [] r.body with
    | none => (s, some invalidBody)
    | some password =>
      if !s.vaultExists then
        (s, some ⟨404, .error (.ofString "vault does not exist, run init first") errCodeVaultNotFound⟩)
      else match (EncryptedStore.unlock P env password).run s.world with
        | .ok _ w => ({ s with world := w }.resetAutoLock, some ⟨200, .success (.ofString "vault unlocked")⟩)
        | .error (.error e) w =>
          ({ s with world := w }, some (if contains (errorText e) (.ofString "invalid password")
            then ⟨401, .error (.ofString "invalid password") errCodeInvalidPassword⟩ else internalError e))
        | .error (.panic _) w => ({ s with world := w }, none)

/-- `s.handleLock`: the timer is stopped before the store is locked. -/
def Server.handleLock (s : Server) (r : Request) : Server × Option Response :=
  if r.method ≠ .post then (s, some methodNotAllowed)
  else
    let s := s.stopTimer
    s.finish ((EncryptedStore.lock env).run s.world) fun _ s => (s, some ⟨200, .success (.ofString "vault locked")⟩)

/-- The loop of `handleSecrets`: an item for each path whose secret `Get`
returns, skipping the others; a panic ends it. `Get` changes nothing. -/
def listItems (w : World) : List Bytes → Option (List SecretListItem)
  | [] => some []
  | path :: rest =>
    match (EncryptedStore.get P path).run w with
    | .ok secret _ =>
      (⟨path, secret.value ≠ [] || secret.valueBytes.length > 0, secret.fields.size > 0,
        secret.metadata.modifiedAt⟩ :: ·) <$> listItems w rest
    | .error (.error _) _ => listItems w rest
    | .error (.panic _) _ => none

/-- `s.handleSecrets`. -/
def Server.handleSecrets (s : Server) (r : Request) : Server × Option Response :=
  if r.method ≠ .get then (s, some methodNotAllowed)
  else if s.isLocked then (s, some vaultLocked)
  else s.finish ((EncryptedStore.list (queryGet r.rawQuery (.ofString "prefix"))).run s.world) fun paths s =>
    match listItems P s.world paths with
    | some items => (s.resetAutoLock, some ⟨200, .list items⟩)
    | none => (s, none)

/-- `s.getSecret`. -/
def Server.getSecret (s : Server) (path : Bytes) : Server × Option Response :=
  match (EncryptedStore.get P path).run s.world with
  | .ok secret w =>
    ({ s with world := w }.resetAutoLock, some ⟨200, .secret ⟨path, secretString secret, secret.fields,
      secret.metadata.tags, secret.metadata.createdAt, secret.metadata.modifiedAt⟩⟩)
  | .error (.error .secretNotFound) w =>
    ({ s with world := w }, some ⟨404, .error (.ofString "secret not found") errCodeSecretNotFound⟩)
  | .error (.error e) w => ({ s with world := w }, some (internalError e))
  | .error (.panic _) w => ({ s with world := w }, none)

/-- `s.setSecret`: the secret stored has no times of its own. -/
def Server.setSecret (s : Server) (r : Request) (path : Bytes) : Server × Option Response :=
  match decodeBody SetSecretRequest.storeField {} r.body with
  | none => (s, some invalidBody)
  | some req => s.finish ((EncryptedStore.set P env path req.secret).run s.world) fun _ s =>
    (s.resetAutoLock, some ⟨200, .success (.ofString "secret saved")⟩)

/-- `s.deleteSecret`. -/
def Server.deleteSecret (s : Server) (path : Bytes) : Server × Option Response :=
  s.finish ((EncryptedStore.delete env path).run s.world) fun _ s =>
    (s.resetAutoLock, some ⟨200, .success (.ofString "secret deleted")⟩)

/-- `s.handleSecret`: the store key is the URL's path after `/secret/`. -/
def Server.handleSecret (s : Server) (r : Request) : Server × Option Response :=
  let path := Bytes.trimPrefix r.path (.ofString "/secret/")
  if path = [] then (s, some ⟨400, .error (.ofString "path is required") errCodeInvalidRequest⟩)
  else if s.isLocked then (s, some vaultLocked)
  else match r.method with
    | .get => s.getSecret P path
    | .put => s.setSecret P env r path
    | .delete => s.deleteSecret env path
    | _ => (s, some methodNotAllowed)

/-- `s.handleStop`: it answers, and its goroutine runs `Shutdown`. -/
def Server.handleStop (s : Server) (r : Request) : Server × Option Response :=
  if r.method ≠ .post then (s, some methodNotAllowed)
  else (s, some ⟨200, .success (.ofString "daemon stopping")⟩)

/-- A request, through `ServeMux` to its handler. -/
def Server.handle (s : Server) (r : Request) : Server × Option Response :=
  match dispatch r.path with
  | .redirect path => (s, some ⟨301, .redirect path⟩)
  | .notFound => (s, some ⟨404, .notFound⟩)
  | .handle .status => s.handleStatus r
  | .handle .init => s.handleInit P env r
  | .handle .unlock => s.handleUnlock P env r
  | .handle .lock => s.handleLock env r
  | .handle .secrets => s.handleSecrets P r
  | .handle .secret => s.handleSecret P env r
  | .handle .stop => s.handleStop r

end Handlers

/-! ## Events -/

/-- What can happen next in the daemon. -/
inductive Event where
  /-- A handler runs, start to end. -/
  | request (r : Request)
  /-- Timer `i` expires: its callback starts and waits for `s.mu`. -/
  | expire (i : Nat)
  /-- Timer `i`'s callback takes `s.mu` and locks the store. -/
  | callback (i : Nat)
  /-- The next step of `Shutdown`. -/
  | shutdown
  /-- `Serve` fails. -/
  | serveError

section Events

variable (P : Primitives) (env : Env)

/-- One step of `Shutdown`: stop the timer, lock the store (an error is only
logged), shut the HTTP server down, return. -/
def Server.shutdownStep (s : Server) : Server :=
  match s.phase with
  | .serving => { s.stopTimer with phase := .timerStopped }
  | .timerStopped => { s with world := resultWorld ((EncryptedStore.lock env).run s.world), phase := .storeLocked }
  | .storeLocked => { s with phase := .closed }
  | .closed => { s with phase := .exited }
  | .exited => s

/-- The state after an event; an event that cannot happen changes nothing. -/
def Server.step (s : Server) : Event → Server
  | .request r => if s.phase.serves then (s.handle P env r).1 else s
  | .expire i => if s.timers[i]? = some .armed then { s with timers := s.timers.set i .fired } else s
  | .callback i =>
    if s.timers[i]? = some .fired ∧ s.phase ≠ .exited then
      { s with world := resultWorld ((EncryptedStore.lock env).run s.world), timers := s.timers.set i .ran }
    else s
  | .shutdown => s.shutdownStep env
  | .serveError => if s.phase = .serving then { s with phase := .exited } else s

/-- The events one after the other. -/
def Server.run (events : List Event) (s : Server) : Server :=
  events.foldl (Server.step P env) s

end Events

end OmniVault.Daemon

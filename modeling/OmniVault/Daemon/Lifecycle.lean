import OmniVault.Daemon.Server

/-!
The daemon's session over time: the auto-lock timer and `Shutdown`.

`handleInit` and `handleUnlock` arm the auto-lock only when the store
method returns nil, `resetAutoLock` stops a timer that may already have
expired, and `Shutdown` locks the store without holding `s.mu`. Each
theorem here follows one of these through the events of `Server.step`, for
every state the daemon can be in when the event comes.
-/

namespace OmniVault.Daemon

open Store Vault Http

theorem dispatch_init : dispatch (.ofString "/init") = .handle .init := by decide

theorem dispatch_unlock : dispatch (.ofString "/unlock") = .handle .unlock := by decide

theorem Server.vaultExists_of_metaView {s : Server} {m : VaultMeta} (h : s.world.disk.metaView = some m) :
    s.vaultExists = true := by
  cases hf : s.world.disk.metaFile <;> simp_all [Server.vaultExists, Disk.get, Disk.metaView]

@[simp] theorem Server.run_nil (s : Server) (P : Primitives) (env : Env) : s.run P env [] = s := rfl

@[simp] theorem Server.run_cons (s : Server) (P : Primitives) (env : Env) (e : Event) (es : List Event) :
    s.run P env (e :: es) = (s.step P env e).run P env es := rfl

/-- A request body `\x7b"password":"..."\x7d`. -/
def passwordBody (password : String) : Bytes :=
  .ofString ("\x7b\"password\":\"" ++ password ++ "\"\x7d")

/-- `POST` of a password to `/init` or `/unlock`. -/
def passwordRequest (path password : String) : Request :=
  ⟨.post, .ofString path, [], passwordBody password⟩

section Lifecycle

variable {P : Primitives} {env : Env}

/-! ## Shutdown -/

/-- `Shutdown` holds no lock: a request that comes after its `store.Lock()`
and before `server.Shutdown` is still served. An `/unlock` served there
opens a session that no later step of `Shutdown` closes, so the daemon
exits with the store unlocked. -/
theorem shutdown_exits_unlocked_after_unlock {s : Server} (hphase : s.phase = .storeLocked) {r : Request}
    (hpath : r.path = .ofString "/unlock") (hpost : r.method = .post) {password : Bytes}
    (hbody : decodeBody passwordField [] r.body = some password) {w' : World}
    (hok : (EncryptedStore.unlock P env password).run s.world = .ok () w') :
    let s' := s.run P env [.request r, .shutdown, .shutdown]
    s'.phase = .exited ∧ s'.isLocked = false ∧ s'.world = w' := by
  obtain ⟨m, c, hm, -, -, -, d, -, calls, t, hw'⟩ := unlock_run_ok_inv hok
  have hhandle : (s.handle P env r).1 = { s with world := w' }.resetAutoLock := by
    simp [Server.handle, hpath, dispatch_unlock, Server.handleUnlock, hpost, hbody,
      Server.vaultExists_of_metaView hm, hok]
  simp [Server.step, hphase, Phase.serves, hhandle, Server.shutdownStep, Server.isLocked, hw',
    EncryptedStore.isLockedUnsafe, Crypto.isUnlocked]

/-- A sample run: a vault made with "hunter22", `Shutdown` up to its
`store.Lock()`, an `/unlock` with "hunter22", then the rest of `Shutdown`. -/
def shutdownSample : Server :=
  Server.run Primitives.standIn (Env.reliable Time.zero)
    [.request (passwordRequest "/init" "hunter22"), .shutdown, .shutdown] {}

set_option maxRecDepth 100000 in
theorem shutdown_exits_unlocked_sample :
    let P := Primitives.standIn
    let env := Env.reliable Time.zero
    let s' := shutdownSample.run P env [.request (passwordRequest "/unlock" "hunter22"), .shutdown, .shutdown]
    shutdownSample.isLocked = true ∧ s'.phase = .exited ∧ s'.isLocked = false ∧
      s'.world = resultWorld ((EncryptedStore.unlock P env (.ofString "hunter22")).run shutdownSample.world) :=
  ⟨by decide, shutdown_exits_unlocked_after_unlock (by decide) rfl rfl (by decide)
    (eq_ok_of_resultValue (by decide))⟩

/-! ## Initialize without an auto-lock -/

/-- `handleInit` arms the auto-lock only when `Initialize` returns nil, but
`Initialize` opens its session before it saves: when a save fails, the
store is left unlocked and no auto-lock is armed or waiting, whatever
happens to the timers afterwards. -/
theorem init_save_failure_leaves_no_autoLock (hP : P.Lawful) {s : Server} (hpend : s.autoLockPending = false)
    (hnone : s.world.disk.metaFile = none)
    (hr₀ : env.randFails s.world.calls = false) (hr₁ : env.randFails (s.world.calls + 1) = false)
    {r : Request} (hpath : r.path = .ofString "/init") (hpost : r.method = .post) {password : Bytes}
    (hbody : decodeBody passwordField [] r.body = some password) (hlen : 8 ≤ password.length)
    {f : Fault} {w' : World}
    (hsave : (do wrapErr (.ofString "failed to save metadata") (saveMeta env)
                 wrapErr (.ofString "failed to save data") (saveData env)).run
               (initWorld P env s.world password) = .error f w') :
    let s' := (s.handle P env r).1
    s'.isLocked = false ∧ s'.autoLockPending = false := by
  have hvault : s.vaultExists = false := by simp [Server.vaultExists, Disk.get, hnone]
  have hs' : (s.handle P env r).1 = { s with world := w' } := by
    simp only [Server.handle, hpath, dispatch_init, Server.handleInit, hpost, ne_eq, not_true_eq_false,
      if_false, hbody, Nat.not_lt.mpr hlen, hvault, Bool.false_eq_true, init_run_saves hP hnone hr₀ hr₁, hsave]
    cases f <;> rfl
  have hcrypto := congrArg EncryptedStore.crypto (saves_store hsave)
  simp only [resultWorld_error] at hcrypto
  refine ⟨?_, hs' ▸ hpend⟩
  simp [hs', Server.isLocked, EncryptedStore.isLockedUnsafe, hcrypto, initWorld, Crypto.isUnlocked]

set_option maxRecDepth 100000 in
/-- A vault made with "hunter22" on an operating system that opens no file
for writing. -/
theorem init_save_failure_no_autoLock_sample :
    let P := Primitives.standIn
    let s := ({} : Server).handle P Env.cannotOpen (passwordRequest "/init" "hunter22")
    s.2 = some (internalError (.wrap (.ofString "failed to save metadata") (.os (.ofString "open") false))) ∧
      s.1.isLocked = false ∧ s.1.autoLockPending = false :=
  ⟨by decide, init_save_failure_leaves_no_autoLock (s := {}) Primitives.standIn_lawful rfl rfl rfl rfl rfl rfl
    (show _ = some (.ofString "hunter22") by decide) (by decide)
    (f := .error (.wrap (.ofString "failed to save metadata") (.os (.ofString "open") false)))
    (eq_error_of_resultFault (by decide))⟩

/-! ## A stale timer -/

/-- `resetAutoLock` calls `Stop` on a timer that may have expired already,
its callback waiting for `s.mu`. `Stop` does nothing then: the reset arms a
new timer, and the old callback, once it has the mutex, still locks the
store as if no request had come. -/
theorem reset_keeps_fired_callback {s : Server} {i : Nat} (hi : s.autoLockTimer = some i)
    (hfired : s.timers[i]? = some .fired) (hphase : s.phase ≠ .exited) :
    let s' := s.resetAutoLock
    s'.autoLockTimer = some s.timers.length ∧ s'.timers[s.timers.length]? = some .armed ∧
      i ≠ s.timers.length ∧ s'.timers[i]? = some .fired ∧
      (s'.step P env (.callback i)).world = resultWorld ((EncryptedStore.lock env).run s.world) := by
  have hlt : i < s.timers.length := (List.getElem?_eq_some_iff.mp hfired).1
  have hstop : s.stopTimer.timers = s.timers.modify TimerState.stop i := by simp [Server.stopTimer, hi]
  have hi' : (s.timers.modify TimerState.stop i)[i]? = some .fired := by
    simp [List.getElem?_modify, hfired, TimerState.stop]
  simp [Server.resetAutoLock, hstop, Server.step, List.getElem?_append_left, List.getElem?_append_right,
    hlt, hi', hphase, Nat.ne_of_lt hlt]

/-- A vault made with "hunter22" whose auto-lock timer has expired, its
callback waiting for the mutex. -/
def staleSample : Server :=
  Server.run Primitives.standIn (Env.reliable Time.zero)
    [.request (passwordRequest "/init" "hunter22"), .expire 0] {}

set_option maxRecDepth 100000 in
theorem reset_keeps_fired_callback_sample :
    let s' := staleSample.resetAutoLock
    s'.autoLockTimer = some 1 ∧ s'.timers[1]? = some .armed ∧ 0 ≠ 1 ∧ s'.timers[0]? = some .fired ∧
      (s'.step Primitives.standIn (Env.reliable Time.zero) (.callback 0)).world =
        resultWorld ((EncryptedStore.lock (Env.reliable Time.zero)).run staleSample.world) :=
  reset_keeps_fired_callback (by decide) (by decide) (by decide)

end Lifecycle

end OmniVault.Daemon

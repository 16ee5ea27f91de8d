import OmniVault.Daemon.Lifecycle

/-!
Secrets through the daemon: what `handleSecret` hands the store, and what
the store hands back.

`setSecret` builds the secret from the request body alone, with no times,
so `Set` stamps it as new on every write. The integration tests' client
writes the store key into the URL as it is, with no escaping: a `?` in the
key starts the query, and the handler reads only what comes before it.
-/

namespace OmniVault.Daemon

open Store Vault Json Http

section Handle

variable (P : Primitives) (env : Env) {s : Server} {r : Request} (hroute : dispatch r.path = .handle .secret)
  (hp : Bytes.trimPrefix r.path (.ofString "/secret/") ≠ []) (hunlocked : s.isLocked = false)
include hroute hp hunlocked

/-- A `GET` under `/secret/`, on an unlocked store and a key that is not empty. -/
theorem Server.handle_secret_get (hm : r.method = .get) :
    s.handle P env r = s.getSecret P (Bytes.trimPrefix r.path (.ofString "/secret/")) := by
  simp [Server.handle, hroute, Server.handleSecret, hp, hunlocked, hm]

/-- A `PUT` under `/secret/`, on an unlocked store and a key that is not empty. -/
theorem Server.handle_secret_put (hm : r.method = .put) :
    s.handle P env r = s.setSecret P env r (Bytes.trimPrefix r.path (.ofString "/secret/")) := by
  simp [Server.handle, hroute, Server.handleSecret, hp, hunlocked, hm]

end Handle

section Secrets

variable {P : Primitives} {env : Env}

/-! ## Created times -/

/-- A `PUT` then a `GET` of the same key report as its creation time the
time of that `PUT`, whatever the key held before: `setSecret` passes `Set`
a secret with no `CreatedAt`, and `Set` stamps it with the clock. -/
theorem put_then_get_reports_put_time (hP : P.Lawful) {s : Server} {c : Crypto} {k : Nat} {d : VaultData}
    (hsess : Session s.world c k d) (hsize : aesKeySizeOk (s.world.key k)) (hauto : s.world.store.autoSave = true)
    (hrand : env.randFails (s.world.calls + 1) = false) (hmk : env.mkdirOk (s.world.calls + 2) = true)
    (hw : env.write (s.world.calls + 3) = .ok) (hclock : (env.now s.world.calls).InRange)
    {put : Request} (hput : put.method = .put) (hroute : dispatch put.path = .handle .secret)
    (hp : Bytes.trimPrefix put.path (.ofString "/secret/") ≠ [])
    {req : SetSecretRequest} (hbody : decodeBody SetSecretRequest.storeField {} put.body = some req)
    (hvalid : req.secret.textValid) :
    let p := Bytes.trimPrefix put.path (.ofString "/secret/")
    let t := some (env.now s.world.calls).truncSec
    ((s.handle P env put).1.handle P env { put with method := .get }).2 =
      some ⟨200, .secret ⟨p, secretString req.secret, req.fields, req.tags, t, t⟩⟩ := by
  intro p t
  let ct := setCiphertext P env (s.world.key k) s.world.calls req.secret
  let w₁ : World := { s.world with
    calls := s.world.calls + 4
    disk := s.world.disk.set .vault (some (encode (dataJson (some ⟨d.secrets.insert p ct⟩))))
    store := { s.world.store with data := some ⟨d.secrets.insert p ct⟩, dirty := false } }
  have hsess₁ : Session w₁ c k ⟨d.secrets.insert p ct⟩ := ⟨hsess.crypto, hsess.key, rfl⟩
  have hput' : (s.handle P env put).1 = { s with world := w₁ }.resetAutoLock := by
    rw [Server.handle_secret_put P env hroute hp hsess.unlocked hput]
    simp only [Server.setSecret, hbody, set_run hsess hauto hsize hrand hmk hw]
    rfl
  have hstored : (stamp req.secret (env.now s.world.calls)).Storable :=
    storable_stamp ⟨hvalid, trivial, trivial, trivial⟩ hclock
  have hget : (EncryptedStore.get P p).run w₁ = .ok (stamp req.secret (env.now s.world.calls)).normalize w₁ := by
    rw [get_run_sealed hsess₁ hP hsize (nonce_length env (s.world.calls + 1)) (GoMap.lookup_insert_self _ _ _),
      Secret.unmarshal_marshal hstored.1 hstored.2]
  have hunlocked₁ : ({ s with world := w₁ }.resetAutoLock).isLocked = false := by
    simpa [Server.isLocked] using hsess₁.unlocked
  rw [hput', Server.handle_secret_get P env (r := { put with method := .get }) hroute hp hunlocked₁ rfl]
  simp only [Server.resetAutoLock_world, Server.getSecret, hget]
  rfl

/-- An operating system whose clock reads `i` seconds after the epoch at its
`i`-th call. -/
def Env.ticking : Env := { Env.reliable Time.zero with now := fun i => ⟨i, 0, 0, by decide⟩ }

/-- A `PUT` of a `value` to `/secret/db`. -/
def putRequest (value : String) : Request :=
  ⟨.put, .ofString "/secret/db", [], .ofString ("\x7b\"value\":\"" ++ value ++ "\"\x7d")⟩

/-- A vault made with "hunter22" whose "db" was written once, at second 8. -/
def rewriteSample : Server :=
  Server.run Primitives.standIn Env.ticking [.request (passwordRequest "/init" "hunter22"), .request (putRequest "v1")] {}

set_option maxRecDepth 100000 in
/-- "db" was created at second 8; a `GET` after a second `PUT`, made at
second 12, reports it created at second 12. -/
theorem put_then_get_reports_put_time_sample :
    let P := Primitives.standIn
    let get : Request := { putRequest "v2" with method := .get }
    (rewriteSample.handle P Env.ticking get).2.map Response.reply =
      some (.secret ⟨.ofString "db", .ofString "v1", GoMap.empty, GoMap.empty,
        some ⟨8, 0, 0, by decide⟩, some ⟨8, 0, 0, by decide⟩⟩) ∧
    ((rewriteSample.handle P Env.ticking (putRequest "v2")).1.handle P Env.ticking get).2 =
      some ⟨200, .secret ⟨.ofString "db", .ofString "v2", GoMap.empty, GoMap.empty,
        some ⟨12, 0, 0, by decide⟩, some ⟨12, 0, 0, by decide⟩⟩⟩ :=
  ⟨by decide, put_then_get_reports_put_time (c := ⟨defaultArgon2Params, (List.range 32).map UInt8.ofNat, some 0⟩)
    (d := rewriteSample.world.store.data.getD ⟨GoMap.empty⟩) Primitives.standIn_lawful
    ⟨by decide, rfl, by decide⟩ (by decide) (by decide) rfl rfl rfl (by decide) rfl (by decide) (by decide)
    (show _ = some { value := .ofString "v2" } by decide) (by decide)⟩

end Secrets

/-! ## Keys with a query in them -/

/-- The client puts the key into the URL unescaped, so `url.Parse` takes a
`?` in it as the start of the query: for a key `x ++ "?" ++ y`, the daemon's
handler gets the key `x` and the query `y`, whatever the method. Set, Get
and Delete of such a key act on `x`. -/
theorem client_key_cut_at_query {x y : Bytes} (hx : 0x23 ∉ x ∧ 0x3F ∉ x ∧ 0x25 ∉ x ∧ x.any isCtl = false)
    (hy : 0x23 ∉ y ∧ y.any isCtl = false)
    (hclean : cleanPath (.ofString "/secret/" ++ x) = .ofString "/secret/" ++ x) (method : Method) (body : Bytes) :
    ∃ r, clientRequest method (.ofString "/secret/" ++ (x ++ 0x3F :: y)) body = some r ∧
      dispatch r.path = .handle .secret ∧ Bytes.trimPrefix r.path (.ofString "/secret/") = x ∧ r.rawQuery = y := by
  have hpre : 0x23 ∉ Bytes.ofString "/secret/" ∧ 0x3F ∉ Bytes.ofString "/secret/" ∧
      0x25 ∉ Bytes.ofString "/secret/" ∧ (Bytes.ofString "/secret/").any isCtl = false := by decide
  have hparse : parseTarget (.ofString "/secret/" ++ x ++ 0x3F :: y) = some (.ofString "/secret/" ++ x, y) :=
    parseTarget_query (by simp_all) hy
  refine ⟨⟨method, .ofString "/secret/" ++ x, y, body⟩, ?_, dispatch_secret hclean, ?_, rfl⟩
  · simp [clientRequest, ← List.append_assoc, hparse]
  · simp [Bytes.trimPrefix, Bytes.hasPrefix]

/-- The key "a?b": the daemon stores "a". -/
theorem client_key_cut_at_query_sample :
    ∃ r, clientRequest .put (Bytes.ofString "/secret/" ++ (Bytes.ofString "a" ++ 0x3F :: Bytes.ofString "b")) [] =
        some r ∧ dispatch r.path = .handle .secret ∧ Bytes.trimPrefix r.path (.ofString "/secret/") = .ofString "a" ∧
      r.rawQuery = .ofString "b" :=
  client_key_cut_at_query (by decide) (by decide) (by decide) .put []

end OmniVault.Daemon

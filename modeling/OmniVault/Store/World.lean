import OmniVault.Vault.Secret
import OmniVault.Store.Primitives

/-!
The state `EncryptedStore`'s code runs in and the effects it has.

A `World` holds the store's fields, the two files of the vault, every key
buffer `Crypto.DeriveKey` has made, and how many calls the code has made to
the operating system. What the operating system answers is an `Env`: for the
`i`-th call, the bytes `crypto/rand` gives or its failure, the clock, how
`os.MkdirAll`, `os.WriteFile` and `os.ReadFile` end, and the order of a
`range` over a map. A property of every run
is stated for every `Env`; a run in which every write succeeds is one whose
`Env` says so.

Code runs in `StoreM`, a state monad whose failures keep the state reached:
a Go error, or a panic. `os.WriteFile` opens its file truncated, writes and
closes it, so a failed write can leave the file empty, cut short, or whole.
`os.Stat` is modelled as failing exactly when the file does not exist. The
store's mutex is not modelled here: every method holds it throughout, so a
call is one step of the store.
-/

namespace OmniVault.Store

open Vault

/-- `store.Crypto`: the parameters and salt of a session, and its key while
unlocked, as the index of its buffer in `World.keys`. -/
structure Crypto where
  params : Argon2Params
  salt : Bytes
  key : Option Nat
  deriving DecidableEq

/-- `store.VaultMeta`. The salt keeps Go's distinction between a nil slice
and an empty one, which `NewCrypto` tells apart. -/
structure VaultMeta where
  version : Int
  createdAt : Time
  salt : Option Bytes
  argon2Params : Argon2Params
  verification : Bytes
  deriving DecidableEq

/-- `store.VaultData`: each path with the base64 ciphertext of its secret's JSON. -/
structure VaultData where
  secrets : GoMap Bytes
  deriving DecidableEq

/-- `store.EncryptedStore` without its mutex and its two paths, which name
the files of `Disk`. -/
structure EncryptedStore where
  crypto : Option Crypto := none
  meta : Option VaultMeta := none
  data : Option VaultData := none
  dirty : Bool := false
  autoSave : Bool := true
  unlockTime : Time := Time.zero
  deriving DecidableEq

/-- A key buffer made by `DeriveKey`, and whether it has been overwritten with zeros. -/
structure KeyBuffer where
  bytes : Bytes
  zeroed : Bool
  deriving DecidableEq

inductive FileId where
  | meta
  | vault
  deriving DecidableEq

/-- The metadata file and the data file; `none` for a file that does not exist. -/
structure Disk where
  metaFile : Option Bytes := none
  vaultFile : Option Bytes := none
  deriving DecidableEq

def Disk.get (d : Disk) : FileId → Option Bytes
  | .meta => d.metaFile
  | .vault => d.vaultFile

def Disk.set (d : Disk) : FileId → Option Bytes → Disk
  | .meta, c => { d with metaFile := c }
  | .vault, c => { d with vaultFile := c }

@[simp] theorem Disk.get_set_self (d : Disk) (f : FileId) (c : Option Bytes) :
    (d.set f c).get f = c := by
  cases f <;> rfl

@[simp] theorem Disk.get_set_ne (d : Disk) {f g : FileId} (h : g ≠ f) (c : Option Bytes) :
    (d.set f c).get g = d.get g := by
  cases f <;> cases g <;> first | rfl | exact absurd rfl h

structure World where
  store : EncryptedStore := {}
  disk : Disk := {}
  keys : List KeyBuffer := []
  calls : Nat := 0

/-- How a call of `os.WriteFile` ends. -/
inductive WriteOutcome where
  | ok
  /-- `OpenFile` failed: the file is as it was. -/
  | openFailed
  /-- The file was truncated, and `Write` failed after its first `n` bytes. -/
  | writeFailed (n : Nat)
  /-- Everything was written, and `Close` failed. -/
  | closeFailed
  deriving DecidableEq

/-- What the operating system answers to the store's `i`-th call. -/
structure Env where
  randFails : Nat → Bool
  rand : Nat → Nat → UInt8
  now : Nat → Time
  mkdirOk : Nat → Bool
  write : Nat → WriteOutcome
  readFails : Nat → Bool
  /-- The order in which a `range` over a map visits its entries. -/
  mapOrder : Nat → List (Bytes × Bytes) → List (Bytes × Bytes)
  mapOrder_perm : ∀ i l, (mapOrder i l).Perm l

/-- An operating system on which every call succeeds, whose clock reads `t`. -/
def Env.reliable (t : Time) : Env where
  randFails _ := false
  rand i j := UInt8.ofNat (i + j)
  now _ := t
  mkdirOk _ := true
  write _ := .ok
  readFails _ := false
  mapOrder _ l := l
  mapOrder_perm _ l := List.Perm.refl l

/-- Every `os.MkdirAll` and `os.WriteFile` succeeds. -/
def Env.WritesSucceed (env : Env) : Prop := ∀ i, env.mkdirOk i = true ∧ env.write i = .ok

/-- A Go `error` value. -/
inductive GoError where
  /-- `errors.New(msg)`. -/
  | text (msg : Bytes)
  /-- `fmt.Errorf(context + ": %w", cause)`. -/
  | wrap (context : Bytes) (cause : GoError)
  /-- `vault.ErrSecretNotFound`, compared by identity. -/
  | secretNotFound
  /-- A `*PathError` of `os`: the operation, and whether `os.IsNotExist` holds of it. -/
  | os (op : Bytes) (notExist : Bool)
  /-- An error whose text the model does not render (`encoding/json`,
  `encoding/base64`, `crypto/rand`). -/
  | lib (source : Bytes)
  deriving DecidableEq

/-- How a call ends when it does not return normally. -/
inductive Fault where
  | error (e : GoError)
  | panic (msg : Bytes)
  deriving DecidableEq

abbrev StoreM := EStateM Fault World

/-- The process starting again: the files stay, the store and its key buffers
are new, and the operating system goes on counting calls. -/
def World.restart (w : World) : World := { disk := w.disk, calls := w.calls }

/-! ## Errors -/

/-- `return errors.New(msg)`. -/
def fail {α : Type} (msg : String) : StoreM α := throw (.error (.text (.ofString msg)))

/-- `panic(msg)`. -/
def goPanic {α : Type} (msg : String) : StoreM α := throw (.panic (.ofString msg))

/-- A field read or a method called through a nil pointer. -/
def nilDereference {α : Type} : StoreM α :=
  goPanic "runtime error: invalid memory address or nil pointer dereference"

/-- `if err != nil { return handler(err) }` around `x`: an error goes to the
handler, a panic goes on. -/
def onError {α : Type} (x : StoreM α) (handler : GoError → StoreM α) : StoreM α :=
  tryCatch x fun
    | .error e => handler e
    | f => throw f

/-- `if err != nil { return fmt.Errorf(context + ": %w", err) }` around `x`. -/
def wrapErr {α : Type} (context : Bytes) (x : StoreM α) : StoreM α :=
  onError x fun e => throw (.error (.wrap context e))

/-! ## The operating system -/

/-- The number of the next call to the operating system. -/
def nextCall : StoreM Nat := modifyGet fun w => (w.calls, { w with calls := w.calls + 1 })

section Calls

variable (env : Env)

/-- The `n` bytes `crypto/rand` gives at call `i`. -/
def Env.randBytes (i n : Nat) : Bytes := List.ofFn fun j : Fin n => env.rand i j

@[simp] theorem Env.randBytes_length (i n : Nat) : (env.randBytes i n).length = n := List.length_ofFn _

/-- `rand.Read` into a new slice of `n` bytes. -/
def randRead (n : Nat) : StoreM Bytes := do
  let i ← nextCall
  if env.randFails i then throw (.error (.lib (.ofString "crypto/rand")))
  pure (env.randBytes i n)

/-- `time.Now()`. -/
def now : StoreM Time := do return env.now (← nextCall)

/-- `os.Stat(path)` succeeds. -/
def fileExists (f : FileId) : StoreM Bool := do return ((← get).disk.get f).isSome

/-- `os.MkdirAll` of the file's directory. -/
def mkdirAll : StoreM Unit := do
  unless env.mkdirOk (← nextCall) do throw (.error (.os (.ofString "mkdir") false))

def putFile (f : FileId) (c : Bytes) : StoreM Unit :=
  modify fun w => { w with disk := w.disk.set f (some c) }

/-- `os.WriteFile(path, data, 0600)`. -/
def writeFile (f : FileId) (data : Bytes) : StoreM Unit := do
  match env.write (← nextCall) with
  | .ok => putFile f data
  | .openFailed => throw (.error (.os (.ofString "open") false))
  | .writeFailed n =>
    putFile f (data.take n)
    throw (.error (.os (.ofString "write") false))
  | .closeFailed =>
    putFile f data
    throw (.error (.os (.ofString "close") false))

/-- `os.ReadFile(path)`, its error returned as a value for the caller to inspect. -/
def readFile (f : FileId) : StoreM (Except GoError Bytes) := do
  let i ← nextCall
  match (← get).disk.get f with
  | none => pure (.error (.os (.ofString "open") true))
  | some b => pure (if env.readFails i then .error (.os (.ofString "read") false) else .ok b)

end Calls

/-! ## Key buffers -/

/-- A new key buffer holding `b`. -/
def allocKey (b : Bytes) : StoreM Nat :=
  modifyGet fun w => (w.keys.length, { w with keys := w.keys ++ [⟨b, false⟩] })

def keyBytes (i : Nat) : StoreM Bytes := do return ((← get).keys.getD i ⟨[], true⟩).bytes

/-- `for i := range key { key[i] = 0 }`. -/
def zeroKey (i : Nat) : StoreM Unit :=
  modify fun w => { w with keys := w.keys.modify (fun k => ⟨k.bytes.map fun _ => 0, true⟩) i }

/-- Zeroing the buffer just made. -/
theorem modify_append_length {α : Type} (f : α → α) (a : α) :
    ∀ l : List α, (l ++ [a]).modify f l.length = l ++ [f a]
  | [] => rfl
  | b :: l => by simp [modify_append_length f a l]

/-- Zeroing a buffer made after the first `l.length` leaves those alone. -/
theorem modify_append_right {α : Type} (f : α → α) :
    ∀ (l bs : List α) (n : Nat), (l ++ bs).modify f (l.length + n) = l ++ bs.modify f n
  | [], bs, n => by simp
  | a :: l, bs, n => by
    rw [List.cons_append, List.length_cons, Nat.succ_add, List.modify_succ_cons, modify_append_right f l bs n]
    rfl

/-! ## The store's fields -/

def getStore : StoreM EncryptedStore := do return (← get).store

def modifyStore (f : EncryptedStore → EncryptedStore) : StoreM Unit :=
  modify fun w => { w with store := f w.store }

/-! ## Running -/

section Running

variable {α β : Type} (w : World)

@[simp] theorem run_pure (a : α) : (pure a : StoreM α).run w = .ok a w := rfl

@[simp] theorem run_bind (x : StoreM α) (f : α → StoreM β) :
    (x >>= f).run w = match x.run w with
      | .ok a w' => (f a).run w'
      | .error e w' => .error e w' := by
  show EStateM.bind x f w = _
  unfold EStateM.bind EStateM.run
  cases x w <;> rfl

@[simp] theorem run_map (f : α → β) (x : StoreM α) :
    (f <$> x).run w = match x.run w with
      | .ok a w' => .ok (f a) w'
      | .error e w' => .error e w' := by
  show EStateM.map f x w = _
  unfold EStateM.map EStateM.run
  cases x w <;> rfl

@[simp] theorem run_throw (e : Fault) : (throw e : StoreM α).run w = .error e w := rfl

@[simp] theorem run_get : (get : StoreM World).run w = .ok w w := rfl

@[simp] theorem run_modify (f : World → World) : (modify f : StoreM Unit).run w = .ok () (f w) := rfl

@[simp] theorem run_modifyGet (f : World → α × World) :
    (modifyGet f : StoreM α).run w = .ok (f w).1 (f w).2 := rfl

@[simp] theorem run_onError (x : StoreM α) (handler : GoError → StoreM α) :
    (onError x handler).run w = match x.run w with
      | .ok a w' => .ok a w'
      | .error (.error e) w' => (handler e).run w'
      | .error f w' => .error f w' := by
  show EStateM.tryCatch x _ w = _
  unfold EStateM.tryCatch EStateM.run
  cases x w with
  | ok a w' => rfl
  | error f w' => cases f <;> rfl

end Running

/-- The world a call ends in, whether it returned or failed. -/
def resultWorld {α : Type} : EStateM.Result Fault World α → World
  | .ok _ w => w
  | .error _ w => w

/-- The value a call returned, if it returned. -/
def resultValue {α : Type} : EStateM.Result Fault World α → Option α
  | .ok a _ => some a
  | .error _ _ => none

/-- How a call ended, if it did not return. -/
def resultFault {α : Type} : EStateM.Result Fault World α → Option Fault
  | .ok _ _ => none
  | .error f _ => some f

@[simp] theorem resultWorld_ok {α : Type} (a : α) (w : World) : resultWorld (.ok a w) = w := rfl

@[simp] theorem resultWorld_error {α : Type} (f : Fault) (w : World) :
    resultWorld (.error f w : EStateM.Result Fault World α) = w := rfl

/-! ## What each effect does -/

section Effects

variable (env : Env) (w : World)

@[simp] theorem nextCall_run : nextCall.run w = .ok w.calls { w with calls := w.calls + 1 } := rfl

@[simp] theorem getStore_run : getStore.run w = .ok w.store w := rfl

@[simp] theorem modifyStore_run (f : EncryptedStore → EncryptedStore) :
    (modifyStore f).run w = .ok () { w with store := f w.store } := rfl

@[simp] theorem fail_run {α : Type} (msg : String) :
    (fail msg : StoreM α).run w = .error (.error (.text (.ofString msg))) w := rfl

@[simp] theorem nilDereference_run {α : Type} :
    (nilDereference : StoreM α).run w =
      .error (.panic (.ofString "runtime error: invalid memory address or nil pointer dereference")) w :=
  rfl

@[simp] theorem wrapErr_run {α : Type} (context : Bytes) (x : StoreM α) :
    (wrapErr context x).run w = match x.run w with
      | .ok a w' => .ok a w'
      | .error (.error e) w' => .error (.error (.wrap context e)) w'
      | .error f w' => .error f w' := by
  simp only [wrapErr, run_onError]
  cases x.run w with
  | ok a w' => rfl
  | error f w' => cases f <;> rfl

@[simp] theorem now_run : (now env).run w = .ok (env.now w.calls) { w with calls := w.calls + 1 } := rfl

@[simp] theorem fileExists_run (f : FileId) : (fileExists f).run w = .ok (w.disk.get f).isSome w := rfl

theorem randRead_run (n : Nat) : (randRead env n).run w =
    if env.randFails w.calls then .error (.error (.lib (.ofString "crypto/rand"))) { w with calls := w.calls + 1 }
    else .ok (env.randBytes w.calls n) { w with calls := w.calls + 1 } := by
  simp only [randRead, run_bind, nextCall_run]
  split <;> rfl

theorem mkdirAll_run : (mkdirAll env).run w =
    if env.mkdirOk w.calls then .ok () { w with calls := w.calls + 1 }
    else .error (.error (.os (.ofString "mkdir") false)) { w with calls := w.calls + 1 } := by
  simp only [mkdirAll, run_bind, nextCall_run]
  split <;> simp_all

theorem writeFile_run (f : FileId) (data : Bytes) : (writeFile env f data).run w =
    match env.write w.calls with
    | .ok => .ok () { w with calls := w.calls + 1, disk := w.disk.set f (some data) }
    | .openFailed => .error (.error (.os (.ofString "open") false)) { w with calls := w.calls + 1 }
    | .writeFailed n => .error (.error (.os (.ofString "write") false))
        { w with calls := w.calls + 1, disk := w.disk.set f (some (data.take n)) }
    | .closeFailed => .error (.error (.os (.ofString "close") false))
        { w with calls := w.calls + 1, disk := w.disk.set f (some data) } := by
  simp only [writeFile, run_bind, nextCall_run]
  cases env.write w.calls <;> rfl

theorem readFile_run (f : FileId) : (readFile env f).run w =
    .ok (match w.disk.get f with
      | none => .error (.os (.ofString "open") true)
      | some b => if env.readFails w.calls then .error (.os (.ofString "read") false) else .ok b)
      { w with calls := w.calls + 1 } := by
  simp only [readFile, run_bind, nextCall_run, run_get]
  cases w.disk.get f <;> rfl

end Effects

/-! ## Taking runs apart -/

section Peel

variable {α β : Type} {w w'' : World}

theorem run_bind_ok {x : StoreM α} {f : α → StoreM β} {b : β} (h : (x >>= f).run w = .ok b w'') :
    ∃ a w', x.run w = .ok a w' ∧ (f a).run w' = .ok b w'' := by
  rw [run_bind] at h
  rcases hx : x.run w with ⟨a, w'⟩ | ⟨e, w'⟩ <;> rw [hx] at h
  · exact ⟨a, w', rfl, h⟩
  · cases h

theorem run_bind_error {x : StoreM α} {f : α → StoreM β} {e : Fault} (h : (x >>= f).run w = .error e w'') :
    x.run w = .error e w'' ∨ ∃ a w', x.run w = .ok a w' ∧ (f a).run w' = .error e w'' := by
  rw [run_bind] at h
  rcases hx : x.run w with ⟨a, w'⟩ | ⟨e', w'⟩ <;> rw [hx] at h
  · exact .inr ⟨a, w', rfl, h⟩
  · cases h; exact .inl rfl

theorem wrapErr_run_ok {x : StoreM α} {c : Bytes} {a : α} (h : (wrapErr c x).run w = .ok a w'') :
    x.run w = .ok a w'' := by
  rw [wrapErr_run] at h
  rcases hx : x.run w with ⟨a', w'⟩ | ⟨(e | e), w'⟩ <;> rw [hx] at h <;> cases h
  rfl

theorem wrapErr_run_error {x : StoreM α} {c : Bytes} {e : Fault} (h : (wrapErr c x).run w = .error e w'') :
    ∃ e', x.run w = .error e' w'' := by
  rw [wrapErr_run] at h
  rcases hx : x.run w with ⟨a', w'⟩ | ⟨(e' | e'), w'⟩ <;> rw [hx] at h <;> cases h
  · exact ⟨_, rfl⟩
  · exact ⟨_, rfl⟩

theorem resultWorld_wrapErr {c : Bytes} (x : StoreM α) (w : World) :
    resultWorld ((wrapErr c x).run w) = resultWorld (x.run w) := by
  rw [wrapErr_run]
  rcases x.run w with ⟨a, w'⟩ | ⟨(e | e), w'⟩ <;> rfl

/-- An `if err != nil` whose handler never returns: the call returned as it is. -/
theorem onError_run_ok {x : StoreM α} {handler : GoError → StoreM α} {a : α}
    (hthrow : ∀ e v, resultValue ((handler e).run v) = none) (h : (onError x handler).run w = .ok a w'') :
    x.run w = .ok a w'' := by
  rw [run_onError] at h
  rcases hx : x.run w with ⟨b, v⟩ | ⟨(e | msg), v⟩ <;> simp only [hx] at h
  · exact h ▸ rfl
  · have := hthrow e v
    rw [h] at this
    cases this
  · cases h

/-- A run that returned, read off the value it returned: a closed run is
checked by evaluating `resultValue`, whose type has decidable equality. -/
theorem eq_ok_of_resultValue {r : EStateM.Result Fault World α} {a : α} (h : resultValue r = some a) :
    r = .ok a (resultWorld r) := by
  cases r <;> cases h; rfl

theorem eq_error_of_resultFault {r : EStateM.Result Fault World α} {f : Fault} (h : resultFault r = some f) :
    r = .error f (resultWorld r) := by
  cases r <;> cases h; rfl

end Peel

/-! ## Computations that leave the store and the files alone -/

section Framed

variable {α β : Type}

/-- `x` leaves the store and the files as they were, however it ends, and
what it returns satisfies `Q`: it may count calls to the operating system
and make or zero key buffers, nothing else. -/
structure Framed (x : StoreM α) (Q : α → Prop) : Prop where
  frame : ∀ w, (resultWorld (x.run w)).store = w.store ∧ (resultWorld (x.run w)).disk = w.disk
  post : ∀ w a w', x.run w = .ok a w' → Q a

variable {x : StoreM α} {Q R : α → Prop}

theorem Framed.mono (hx : Framed x Q) (h : ∀ a, Q a → R a) : Framed x R :=
  ⟨hx.frame, fun w a w' hr => h a (hx.post w a w' hr)⟩

theorem Framed.bind {f : α → StoreM β} {R : β → Prop} (hx : Framed x Q) (hf : ∀ a, Q a → Framed (f a) R) :
    Framed (x >>= f) R where
  frame w := by
    rw [run_bind]
    have h₁ := hx.frame w
    rcases h : x.run w with ⟨a, w₁⟩ | ⟨e, w₁⟩ <;> rw [h] at h₁
    · have h₂ := (hf a (hx.post w a w₁ h)).frame w₁
      exact ⟨h₂.1.trans h₁.1, h₂.2.trans h₁.2⟩
    · exact h₁
  post w b w'' h := by
    obtain ⟨a, w₁, h₁, h₂⟩ := run_bind_ok h
    exact (hf a (hx.post w a w₁ h₁)).post w₁ b w'' h₂

/-- A framed computation, then anything: the run fails with the store and
the files as they were, or the rest runs from such a world. -/
theorem Framed.bind_cases {f : α → StoreM β} {w : World} {r : EStateM.Result Fault World β} (hx : Framed x Q)
    (h : (x >>= f).run w = r) :
    (∃ e w', r = .error e w' ∧ w'.store = w.store ∧ w'.disk = w.disk) ∨
      ∃ a w₁, Q a ∧ w₁.store = w.store ∧ w₁.disk = w.disk ∧ (f a).run w₁ = r := by
  rw [run_bind] at h
  have h₁ := hx.frame w
  rcases hx' : x.run w with ⟨a, w₁⟩ | ⟨e, w₁⟩ <;> rw [hx'] at h h₁
  · exact .inr ⟨a, w₁, hx.post w a w₁ hx', h₁.1, h₁.2, h⟩
  · exact .inl ⟨e, w₁, h.symm, h₁⟩

theorem Framed.onError {handler : GoError → StoreM α} (hx : Framed x Q) (hh : ∀ e, Framed (handler e) Q) :
    Framed (onError x handler) Q where
  frame w := by
    rw [run_onError]
    have h₁ := hx.frame w
    rcases h : x.run w with ⟨a, w₁⟩ | ⟨(e | e), w₁⟩ <;> rw [h] at h₁
    · exact h₁
    · have h₂ := (hh e).frame w₁
      exact ⟨h₂.1.trans h₁.1, h₂.2.trans h₁.2⟩
    · exact h₁
  post w a w' h := by
    rw [run_onError] at h
    rcases hx' : x.run w with ⟨b, w₁⟩ | ⟨(e | e), w₁⟩ <;> rw [hx'] at h
    · cases h
      exact hx.post w a w' hx'
    · exact (hh e).post w₁ a w' h
    · cases h

theorem framed_pure (a : α) : Framed (pure a : StoreM α) (· = a) :=
  ⟨fun _ => ⟨rfl, rfl⟩, fun _ _ _ h => by cases h; rfl⟩

theorem framed_throw (e : Fault) : Framed (throw e : StoreM α) Q :=
  ⟨fun _ => ⟨rfl, rfl⟩, fun _ _ _ h => by cases h⟩

theorem Framed.wrapErr (hx : Framed x Q) (c : Bytes) : Framed (wrapErr c x) Q :=
  hx.onError fun _ => framed_throw _

theorem framed_keyBytes (k : Nat) : Framed (keyBytes k) fun _ => True :=
  ⟨fun _ => ⟨rfl, rfl⟩, fun _ _ _ _ => trivial⟩

theorem framed_zeroKey (k : Nat) : Framed (zeroKey k) fun _ => True :=
  ⟨fun _ => ⟨rfl, rfl⟩, fun _ _ _ _ => trivial⟩

end Framed

end OmniVault.Store

import OmniVault.Go.Os
import OmniVault.Vault.Errors
import OmniVault.Vault.Secret

/-!
`providers/file`: one file per secret, below `Config.Directory`.

A secret's path, with the extension put after it, is joined onto the
directory; `Get` reads that file, `Set` makes the directories above it and
writes it, `Delete` removes it and `List` walks the directory. The model
follows each method's calls to `os` and `filepath` on the file system of
`OmniVault.Os`, the time a write happens at given with the call. `FileMode`
and `DirMode` are kept and handed to nothing that checks them, as
permissions are not modelled; nor are symbolic links, and `ReadDir` never
fails. The results below are so for trees without links, under modes that
let the process read and enter what it reaches.
-/

namespace OmniVault.Vault

/-- `Secret.Bytes()`. -/
def Secret.bytes (s : Secret) : Bytes := if 0 < s.valueBytes.length then s.valueBytes else s.value

end OmniVault.Vault

namespace OmniVault.Providers.File

open Vault Os Filepath Json

/-- `file.Config`. -/
structure Config where
  directory : Bytes
  extension : Bytes := []
  jsonFormat : Bool := false
  fileMode : Nat := 0
  dirMode : Nat := 0
  readOnly : Bool := false
  deriving DecidableEq

/-- `file.Provider`. `New` refuses an empty directory, so every provider
has one. -/
structure Provider where
  config : Config
  directory_ne : config.directory ≠ []

/-- `p.Name()`. -/
def name : Bytes := .ofString "file"

/-- An error of `os` as the error a `VaultError` wraps. -/
def PathError.toOs (e : PathError) : OsError := ⟨e.error, e.isNotExist⟩

/-- `New(config)`: the default modes, and the directory made unless the
provider is read-only. -/
def new (config : Config) (fs : Fs) : Except OsError Provider × Fs :=
  if h : config.directory = [] then (.error ⟨.ofString "directory is required", false⟩, fs)
  else
    let p : Provider := ⟨{ config with
      fileMode := if config.fileMode = 0 then 0o600 else config.fileMode
      dirMode := if config.dirMode = 0 then 0o700 else config.dirMode }, h⟩
    if !config.readOnly then
      match fs.mkdirAll config.directory with
      | (.error e, fs') => (.error (PathError.toOs e), fs')
      | (.ok (), fs') => (.ok p, fs')
    else (.ok p, fs)

/-- `vault.NewVaultError(op, path, p.Name(), err)`. -/
def vaultError (op path : Bytes) (err : Cause) : ProviderError := .vault (newVaultError op path name err)

namespace Provider

variable (p : Provider)

/-- `p.filepath(path)`. -/
def filepath (path : Bytes) : Bytes :=
  join p.config.directory (if p.config.extension ≠ [] then path ++ p.config.extension else path)

/-- The secret `Get` returns for a file it read: its provider and path set,
and `ModifiedAt` the file's modification time when `Stat` finds it. -/
def stamped (path : Bytes) (modTime : Option Time) (s : Secret) : Secret :=
  { s with metadata := { s.metadata with
      provider := name, path := path, modifiedAt := modTime.or s.metadata.modifiedAt } }

/-- The secret `Get` makes of a file's bytes: in JSON form what
`json.Unmarshal` reads into a new secret, or the bytes as the value when it
fails; in plain form the bytes as the value. -/
def decode (data : Bytes) : Secret :=
  if p.config.jsonFormat then (Secret.unmarshal data).getD { value := data } else { value := data }

/-- `p.Get(ctx, path)`. -/
def get (fs : Fs) (path : Bytes) : Except ProviderError Secret :=
  let fp := p.filepath path
  match fs.readFile fp with
  | .error e =>
    if e.isNotExist then .error (vaultError (.ofString "Get") path (.sentinel .secretNotFound))
    else .error (vaultError (.ofString "Get") path (.os (PathError.toOs e)))
  | .ok data =>
    let secret := p.decode data
    match fs.stat fp with
    | .ok (.file _ modTime) => .ok (stamped path (some modTime) secret)
    | _ => .ok (stamped path none secret)

/-- The bytes `Set` writes: `json.MarshalIndent(secret, "", "  ")` in JSON
form, else `secret.Bytes()`, which dereferences a nil secret. -/
def data (secret : Option Secret) : Option Bytes :=
  if p.config.jsonFormat then some (encodeIndent ((secret.map Secret.toJson).getD .null))
  else secret.map Secret.bytes

/-- `p.Set(ctx, path, secret)`, the file written at the time `now`. The
directories `MkdirAll` made stay when a later step fails. -/
def set (now : Time) (path : Bytes) (secret : Option Secret) (fs : Fs) : Except ProviderFault Unit × Fs :=
  if p.config.readOnly then (.error (.error (vaultError (.ofString "Set") path (.sentinel .readOnly))), fs)
  else
    let fp := p.filepath path
    match fs.mkdirAll (dir fp) with
    | (.error e, fs') => (.error (.error (vaultError (.ofString "Set") path (.os (PathError.toOs e)))), fs')
    | (.ok (), fs') =>
      match p.data secret with
      | none => (.error (.panic nilDereferenceText), fs')
      | some data =>
        match fs'.writeFile now fp data with
        | .error e => (.error (.error (vaultError (.ofString "Set") path (.os (PathError.toOs e)))), fs')
        | .ok fs'' => (.ok (), fs'')

/-- `p.Delete(ctx, path)`: a file that is not there is not an error. -/
def delete (path : Bytes) (fs : Fs) : Except ProviderError Unit × Fs :=
  if p.config.readOnly then (.error (vaultError (.ofString "Delete") path (.sentinel .readOnly)), fs)
  else
    match fs.remove (p.filepath path) with
    | .ok fs' => (.ok (), fs')
    | .error e =>
      (if e.isNotExist then .ok () else .error (vaultError (.ofString "Delete") path (.os (PathError.toOs e))), fs)

/-- `p.Exists(ctx, path)`. -/
def «exists» (fs : Fs) (path : Bytes) : Except ProviderError Bool :=
  match fs.stat (p.filepath path) with
  | .ok _ => .ok true
  | .error e =>
    if e.isNotExist then .ok false else .error (vaultError (.ofString "Exists") path (.os (PathError.toOs e)))

/-- The error `filepath.Rel` returns, kept as its text. -/
def relError (basepath targpath : Bytes) : OsError :=
  ⟨.ofString "Rel: can't make " ++ targpath ++ .ofString " relative to " ++ basepath, false⟩

/-- The function `List` hands `WalkDir`, with the results so far: it passes
directories over, and keeps a file's path relative to the directory, the
extension taken off, when it has the prefix. -/
def visit (pre : Bytes) (results : List Bytes) (path : Bytes) (entry : Except PathError Node) :
    Except OsError (List Bytes) :=
  match entry with
  | .error e => .error (PathError.toOs e)
  | .ok .dir => .ok results
  | .ok (.file _ _) =>
    match rel p.config.directory path with
    | none => .error (relError p.config.directory path)
    | some r =>
      let r := if p.config.extension ≠ [] then trimSuffix r p.config.extension else r
      if Bytes.hasPrefix r pre then .ok (results ++ [r]) else .ok results

/-- `p.List(ctx, prefix)`. -/
def list (fs : Fs) (pre : Bytes) : Except ProviderError (List Bytes) :=
  match fs.walkDir p.config.directory (p.visit pre) [] with
  | .ok results => .ok results
  | .error e => .error (vaultError (.ofString "List") pre (.os e))

end Provider

/-! ## Runs -/

/-- A call that can change the file system, with the time of its write. -/
inductive FileCall where
  | set (path : Bytes) (secret : Option Secret) (now : Time)
  | delete (path : Bytes)

/-- The path a call names. -/
def FileCall.path : FileCall → Bytes
  | .set path _ _ | .delete path => path

/-- The file system a call leaves. -/
def FileCall.step (p : Provider) : FileCall → Fs → Fs
  | .set path secret now, fs => (p.set now path secret fs).2
  | .delete path, fs => (p.delete path fs).2

/-- The calls one after the other. -/
def runCalls (p : Provider) (calls : List FileCall) (fs : Fs) : Fs := calls.foldl (fun fs c => c.step p fs) fs

/-! ## Where a secret's file is -/

namespace Provider

variable (p : Provider)

/-- Whether the directory is rooted. -/
def rooted : Bool := isRooted p.config.directory

/-- The names a path puts below the directory: the elements of the path and
the extension after it, "." left out. -/
def names (path : Bytes) : List Bytes := (elems (path ++ p.config.extension)).filter (· ≠ dot)

/-- What `Set` leaves: the file system as it was, as `MkdirAll` left it, or
that with the file written. -/
theorem set_state (now : Time) (path : Bytes) (secret : Option Secret) (fs : Fs) :
    (p.set now path secret fs).2 = fs ∨ (p.set now path secret fs).2 = (fs.mkdirAll (dir (p.filepath path))).2 ∨
      ∃ d, (fs.mkdirAll (dir (p.filepath path))).2.writeFile now (p.filepath path) d = .ok (p.set now path secret fs).2 := by
  unfold set
  split_ifs
  · exact .inl rfl
  dsimp only
  split
  · next hm => exact .inr (.inl (by rw [hm]))
  · next fs' hm =>
    split
    · exact .inr (.inl (by rw [hm]))
    · next d _ =>
      split
      · exact .inr (.inl (by rw [hm]))
      · next fs'' hw => exact .inr (.inr ⟨d, by rw [hm]; exact hw⟩)

/-- What `Delete` leaves: the file system as it was, or what `Remove` made
of it. -/
theorem delete_state (path : Bytes) (fs : Fs) :
    (p.delete path fs).2 = fs ∨ fs.remove (p.filepath path) = .ok (p.delete path fs).2 := by
  unfold delete
  split_ifs
  · exact .inl rfl
  split
  · next fs' h => exact .inr (by rw [h])
  · exact .inl rfl

end Provider

/-! ## A path with no ".." stays below the directory -/

section Confinement

variable (p : Provider)

/-- A provider on "/srv/secrets" whose files end with ".txt". -/
def srvSecrets : Provider := ⟨{ directory := .ofString "/srv/secrets", extension := .ofString ".txt" }, by decide⟩

/-- "/srv/secrets" with the file of the secret "db" in it. -/
def srvTree : Fs :=
  ⟨[], [([.ofString "srv"], .dir), ([.ofString "srv", .ofString "secrets"], .dir),
    ([.ofString "srv", .ofString "secrets", .ofString "db.txt"], .file (.ofString "pw") Time.zero)]⟩

end Confinement

/-! ## Read back, and gone -/

section ReadBack

variable (p : Provider)

/-- Once `Delete` returned nil, nothing is found at the secret's file. -/
theorem find_after_delete {path : Bytes} {fs : Fs} (h : (p.delete path fs).1 = .ok ()) :
    (p.delete path fs).2.find (p.filepath path) = .error .enoent := by
  unfold Provider.delete at h ⊢
  by_cases hro : p.config.readOnly = true
  · simp [hro] at h
  simp only [hro, Bool.false_eq_true, if_false] at h ⊢
  split at h
  · next fs' hr => simpa only [hr] using fs.find_of_remove hr
  · next e hr =>
    by_cases hne : e.isNotExist = true
    · simpa only [hr] using fs.find_of_remove_notExist hr hne
    · simp [hne] at h

end ReadBack

/-- Once `Delete` returns nil the secret is gone, whether its file was
removed then or was not there: `Exists` says false and `Get` returns
`ErrSecretNotFound`. -/
theorem delete_then_gone (p : Provider) (fs : Fs) (path : Bytes) (h : (p.delete path fs).1 = .ok ()) :
    p.exists (p.delete path fs).2 path = .ok false ∧
      p.get (p.delete path fs).2 path = .error (vaultError (.ofString "Get") path (.sentinel .secretNotFound)) := by
  have hfind := find_after_delete p h
  simp [Provider.exists, Provider.get, Fs.stat, Fs.readFile, hfind, Except.mapError, PathError.isNotExist]

/-- Deleting "db" from "/srv/secrets". -/
theorem delete_then_gone_db :
    (srvSecrets.delete (.ofString "db") srvTree).1 = .ok () ∧
      srvSecrets.exists (srvSecrets.delete (.ofString "db") srvTree).2 (.ofString "db") = .ok false ∧
      srvSecrets.get (srvSecrets.delete (.ofString "db") srvTree).2 (.ofString "db") =
        .error (vaultError (.ofString "Get") (.ofString "db") (.sentinel .secretNotFound)) :=
  have h : (srvSecrets.delete (.ofString "db") srvTree).1 = .ok () := rfl
  ⟨h, delete_then_gone srvSecrets srvTree _ h⟩

/-- `Exists` asks `Stat` and `Get` asks `ReadFile`, and on every file system
they agree on what is missing: `Exists(path)` returns false exactly when
`Get(path)` returns `ErrSecretNotFound`, and whenever `Get` returns a
secret, `Exists` returns true. -/
theorem exists_agrees_with_get (p : Provider) (fs : Fs) (path : Bytes) :
    (p.exists fs path = .ok false ↔
      p.get fs path = .error (vaultError (.ofString "Get") path (.sentinel .secretNotFound))) ∧
    ∀ s, p.get fs path = .ok s → p.exists fs path = .ok true := by
  cases h : fs.find (p.filepath path) with
  | error e =>
    by_cases he : e = .enoent
    · simp [Provider.exists, Provider.get, Fs.stat, Fs.readFile, h, he, Except.mapError, PathError.isNotExist]
    · simp [Provider.exists, Provider.get, Fs.stat, Fs.readFile, h, he, Except.mapError, PathError.isNotExist,
        vaultError, newVaultError]
  | ok n =>
    cases n <;> simp [Provider.exists, Provider.get, Fs.stat, Fs.readFile, h, Except.mapError, vaultError,
      newVaultError, PathError.isNotExist]

/-! ## `List` -/

namespace Provider

variable (p : Provider)

end Provider

/-- `Set` and `Delete` keep the tree well formed, through any path. -/
theorem FileCall.step_wellFormed (p : Provider) {fs : Fs} (hwf : fs.WellFormed) :
    ∀ c : FileCall, (c.step p fs).WellFormed
  | .set path secret now => by
    rcases p.set_state now path secret fs with h | h | ⟨d, hw⟩
    · rw [FileCall.step, h]; exact hwf
    · rw [FileCall.step, h]; exact hwf.mkdirAll _
    · exact (hwf.mkdirAll _).writeFile hw
  | .delete path => by
    rcases p.delete_state path fs with h | h
    · rw [FileCall.step, h]; exact hwf
    · exact hwf.remove h

end OmniVault.Providers.File

import OmniVault.Go.Strings

/-!
The errors of `vault/errors.go` as the providers return them.

A provider wraps what went wrong in a `*VaultError` that names the
operation, the path and itself. `VaultError.Is` hands `errors.Is` on to the
wrapped error, so a caller can test for `ErrSecretNotFound` through it. The
sentinels are values made by `errors.New` and compared by identity: only the
three the providers in this repository return are kept. An error of the
operating system is kept as its text, and as whether `os.IsNotExist` holds
of it.
-/

namespace OmniVault.Vault

/-- The sentinel errors the providers return. -/
inductive Sentinel where
  /-- `ErrSecretNotFound`. -/
  | secretNotFound
  /-- `ErrReadOnly`. -/
  | readOnly
  /-- `ErrClosed`. -/
  | closed
  deriving DecidableEq

/-- The text `errors.New` gave each sentinel. -/
def Sentinel.text : Sentinel → Bytes
  | .secretNotFound => .ofString "secret not found"
  | .readOnly => .ofString "vault is read-only"
  | .closed => .ofString "vault is closed"

/-- An error of the operating system: a `*PathError` or a `*SyscallError`. -/
structure OsError where
  text : Bytes
  /-- `os.IsNotExist(err)`. -/
  notExist : Bool
  deriving DecidableEq

/-- What a `VaultError` wraps. -/
inductive Cause where
  | sentinel (e : Sentinel)
  | os (e : OsError)
  deriving DecidableEq

def Cause.text : Cause → Bytes
  | .sentinel e => e.text
  | .os e => e.text

/-- `vault.VaultError`. -/
structure VaultError where
  op : Bytes
  path : Bytes
  provider : Bytes
  err : Cause
  deriving DecidableEq

/-- `NewVaultError(op, path, provider, err)`. -/
def newVaultError (op path provider : Bytes) (err : Cause) : VaultError := ⟨op, path, provider, err⟩

/-- `e.Error()`. -/
def VaultError.error (e : VaultError) : Bytes :=
  if e.path ≠ [] then
    e.provider ++ .ofString ": " ++ e.op ++ .ofString " " ++ e.path ++ .ofString ": " ++ e.err.text
  else e.provider ++ .ofString ": " ++ e.op ++ .ofString ": " ++ e.err.text

/-- `errors.Is(e, target)` for a sentinel `target`: the `*VaultError` is not
the sentinel, and its `Is` asks the wrapped error. An error of the operating
system unwraps to an `Errno`, which is none of the vault's sentinels. -/
def VaultError.is (e : VaultError) (target : Sentinel) : Bool := e.err = .sentinel target

/-- An error a provider's method returns: a `*VaultError`, or an error of
the operating system returned as it is. -/
inductive ProviderError where
  | vault (e : VaultError)
  | os (e : OsError)
  deriving DecidableEq

def ProviderError.text : ProviderError → Bytes
  | .vault e => e.error
  | .os e => e.text

/-- `errors.Is(err, target)` for a sentinel `target`. -/
def ProviderError.is : ProviderError → Sentinel → Bool
  | .vault e, target => e.is target
  | .os _, _ => false

/-- How a provider's method ends when it does not return. -/
inductive ProviderFault where
  | error (e : ProviderError)
  | panic (msg : Bytes)
  deriving DecidableEq

/-- The panic of a field read through a nil pointer. -/
def nilDereferenceText : Bytes := .ofString "runtime error: invalid memory address or nil pointer dereference"

end OmniVault.Vault

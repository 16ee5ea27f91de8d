import OmniVault.Go.Strings
import OmniVault.Go.Strconv
import OmniVault.Go.Utf8
import OmniVault.Go.Time
import OmniVault.Encoding.Base64
import OmniVault.Encoding.Json
import OmniVault.Encoding.JsonDecode
import OmniVault.Encoding.JsonRoundTrip
import OmniVault.Encoding.JsonTruncation
import OmniVault.Encoding.JsonValues
import OmniVault.Vault.Secret
import OmniVault.Store.Primitives
import OmniVault.Store.World
import OmniVault.Store.Crypto
import OmniVault.Store.Persist
import OmniVault.Store.EncryptedStore
import OmniVault.Store.Calls
import OmniVault.Store.Refinement
import OmniVault.Store.ChangePassword
import OmniVault.Store.Files
import OmniVault.Resolver
import OmniVault.Store.Effects
import OmniVault.Store.Sessions
import OmniVault.Store.Steps
import OmniVault.Store.Reachable
import OmniVault.Daemon.Http
import OmniVault.Daemon.Server
import OmniVault.Daemon.Lifecycle
import OmniVault.Daemon.Secrets
import OmniVault.Store.Consistency
import OmniVault.Vault.Errors
import OmniVault.Go.Environ
import OmniVault.Go.Filepath
import OmniVault.Go.Os
import OmniVault.Providers.Env
import OmniVault.Providers.Memory
import OmniVault.Providers.File
import OmniVault.Providers.Resolve

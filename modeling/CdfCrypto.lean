import CdfCrypto.Lib.Run
import CdfCrypto.Lib.Prog
import CdfCrypto.Utils.Base64
import CdfCrypto.Utils.Base64RoundTrip
import CdfCrypto.Utils.Base64Strict
import CdfCrypto.Utils.SplitJoin
import CdfCrypto.Lib.Calendar
import CdfCrypto.Utils.TimeUtils
import CdfCrypto.Lib.Decimal
import CdfCrypto.Cryption.NativeCryptor
import CdfCrypto.Cryption.Engine
import CdfCrypto.Cryption.Coverage
import CdfCrypto.Cryption.Hmac
import CdfCrypto.Cryption.Hash
import CdfCrypto.Cryption.HashStream
import CdfCrypto.Cryption.Pbkdf2
import CdfCrypto.Cryption.Pbkdf2Safety
import CdfCrypto.Cryption.EncryptHonesty
import CdfCrypto.KeyManagement.OpenbaoKeyManager
import CdfCrypto.KeyManagement.Inversion
import CdfCrypto.KeyManagement.RoundTrip
import CdfCrypto.KeyManagement.Listing
import CdfCrypto.KeyManagement.InitExact
import CdfCrypto.KeyManagement.Locks
import CdfCrypto.KeyManagement.Dispatch
import CdfCrypto.KeyManagement.TransitStore
import CdfCrypto.KeyManagement.Mirror
import CdfCrypto.KeyManagement.DeleteAll
import CdfCrypto.KeyManagement.Durability
import CdfCrypto.KeyManagement.Header
import CdfCrypto.KeyManagement.EmptyDomains
import CdfCrypto.KeyManagement.KeyIds
import CdfCrypto.KeyManagement.Expiry
import CdfCrypto.KeyManagement.Renewal
import CdfCrypto.KeyManagement.KeyNames
import CdfCrypto.KeyManagement.Replies
import CdfCrypto.KeyManagement.Exec
import CdfCrypto.KeyManagement.ExecResult
import CdfCrypto.KeyManagement.Descriptors
import CdfCrypto.KeyManagement.Argv
import CdfCrypto.Lib.Lockstep
import CdfCrypto.KeyManagement.VaultManager
import CdfCrypto.PskManagement.Manager
import CdfCrypto.Lib.TwoWay
import CdfCrypto.PskManagement.ContentMap
import CdfCrypto.PskManagement.Quota
import CdfCrypto.PskManagement.Backup
import CdfCrypto.PskManagement.RoundTrip
import CdfCrypto.PskManagement.LocalTime
import CdfCrypto.Lib.Journal
import CdfCrypto.PskManagement.Atomicity
import CdfCrypto.PskManagement.WellFormed
import CdfCrypto.PskManagement.UpdateEffect
import CdfCrypto.PskManagement.ExternalStore
import CdfCrypto.PskManagement.RefCount
import CdfCrypto.PskManagement.AutoUpdate
import CdfCrypto.Jwt.Define
import CdfCrypto.Jwt.Token
import CdfCrypto.Jwt.KeyPass
import CdfCrypto.Jwt.AuthServer
import CdfCrypto.Jwt.Independence
import CdfCrypto.Jwt.Format
import CdfCrypto.Jwt.Lifetime
import CdfCrypto.Jwt.Soundness
import CdfCrypto.Jwt.Rotation
import CdfCrypto.Jwt.KeyLifetime
import CdfCrypto.Jwt.TokenText
import CdfCrypto.Jwt.TokenSize
import CdfCrypto.Authorization.Whitelist
import CdfCrypto.Kerberos.Define
import CdfCrypto.Kerberos.KrbServer
import CdfCrypto.Kerberos.AuthSoundness
import CdfCrypto.Kerberos.Instances
import CdfCrypto.Lib.BigEndian
import CdfCrypto.Kerberos.Keytab
import CdfCrypto.Lib.Handler
import CdfCrypto.Kerberos.KeytabFormat
import CdfCrypto.Kerberos.KeytabWatch
import CdfCrypto.Kerberos.KrbCtx
import CdfCrypto.Kerberos.KeytabSafety
import CdfCrypto.Lib.Best
import CdfCrypto.Kerberos.KeytabSelection
import CdfCrypto.Kerberos.KeytabFile
import CdfCrypto.Kerberos.KeytabMemory
import CdfCrypto.Kerberos.KrbCtxOwnership
import CdfCrypto.Lib.Ownership
import CdfCrypto.Lib.Pool
import CdfCrypto.Rand.Rand
import CdfCrypto.Rand.Lifecycle
import CdfCrypto.Rand.SecurePwd
import CdfCrypto.Utils.FileUtils
import CdfCrypto.Utils.Numerals
import CdfCrypto.Cli.KmcCmd
import CdfCrypto.Cli.Release
import CdfCrypto.KeyManagement.Isolation
import CdfCrypto.KeyManagement.Purge
import CdfCrypto.KeyManagement.KeyChoice
import CdfCrypto.KeyManagement.Blind
import CdfCrypto.Kerberos.KrbClient
import CdfCrypto.Kerberos.KrbClientOwnership
import CdfCrypto.Kerberos.Handshake
import CdfCrypto.Cryption.HashRuns
import CdfCrypto.KeyManagement.SealedTexts
import CdfCrypto.Utils.FileChecks
import CdfCrypto.Cli.ConfigHandler
import CdfCrypto.Cli.Terminal
import CdfCrypto.Lib.Verdict
import CdfCrypto.Cli.CryptionTool
import CdfCrypto.Cli.ExitCode
import CdfCrypto.Lib.Parallel
import CdfCrypto.Lib.RwLock
import CdfCrypto.Cli.Printed
import CdfCrypto.Cli.ToolRuns
import CdfCrypto.KeyManagement.Threads

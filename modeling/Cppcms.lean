import Cppcms.Cache.History
import Cppcms.Cache.Dependencies
import Cppcms.Tcp.Fetches
import Cppcms.Tcp.Sessions
import Cppcms.Fastcgi.Output
import Cppcms.Fastcgi.Reading
import Cppcms.Xss.Soundness
import Cppcms.Xss.Filter
import Cppcms.Template.Meaning
import Cppcms.Archive.RoundTrip
import Cppcms.Cgi.Connection
import Cppcms.Session.Memory
import Cppcms.Http.KeepAlive
import Cppcms.Http.HeaderReading
import Cppcms.Encoding.Base64Streams
import Cppcms.Service.LegacyPool
import Cppcms.Service.ThreadPool
import Cppcms.Aio.WaitRuns
import Cppcms.Locale.Lookup
import Cppcms.Url.Calls
import Cppcms.Archive.Readers
import Cppcms.Session.FileTransfers
import Cppcms.Tcp.Messenger
import Cppcms.Tcp.StoreRanges
import Cppcms.Cgi.ScgiScan
import Cppcms.Fastcgi.Params
import Cppcms.Http.ContentAccounting
import Cppcms.Shmem.BuddyTiling
import Cppcms.Xss.UriAbsolute
import Cppcms.Aio.TimerSlots
import Cppcms.Xss.NumericEntities
import Cppcms.Encoding.Utf8Filter
import Cppcms.Service.NormalizedPaths
import Cppcms.Http.CopyBuffer
import Cppcms.Http.RawOutput
import Cppcms.Aio.Transfers
import Cppcms.Cache.Failures
import Cppcms.Http.FormRoundTrip
import Cppcms.Template.Literals
import Cppcms.Url.Mounting
import Cppcms.Url.Rewrite
import Cppcms.Service.JsonRpcReplies
import Cppcms.Http.CookieAttributes
import Cppcms.Crypto.Hmac
import Cppcms.Form.Names
import Cppcms.Form.File
import Cppcms.Aio.Registries
import Cppcms.Base.Decimal
import Cppcms.Encoding.Utf8Codec
import Cppcms.Http.ContentTypeCursor
import Cppcms.Json.StringKey
import Cppcms.Locale.MoBounds
import Cppcms.Locale.PluralValues
import Cppcms.Stream.ErrorState
import Cppcms.Cache.HashMap
import Cppcms.Http.MultipartRoundTrip
import Cppcms.Session.Lifetime

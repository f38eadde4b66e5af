import Harbor.Session.TimeoutSound
import Harbor.Session.Attribution
import Harbor.Sql.Shape
import Harbor.Sql.Separated
import Harbor.Failures
import Harbor.Server.SingleServer
import Harbor.Server.Generations
import Harbor.Auth.AdminDeny
import Harbor.Routes.Principals
import Harbor.Routes.Enumeration
import Harbor.Routes.Bodies
import Harbor.Quack.Results
import Harbor.Json.Document
import Harbor.Sql.Request
import Harbor.Sql.StructText
import Harbor.Sql.TypeSound
import Harbor.Sql.ModesAgree
import Harbor.Session.Represents
import Harbor.Session.GuardLife
import Harbor.Session.Locks
import Harbor.Server.Drain
import Harbor.Server.SelfDrain
import Harbor.Auth.CookieHeader
import Harbor.Auth.WholeOrigin
import Harbor.Auth.Login
import Harbor.Auth.Base64UrlCodec
import Harbor.Session.Deadline
import Harbor.Sql.WideIntegers
import Harbor.Sql.NumberTokens
import Harbor.Sql.TimestampText
import Harbor.Sql.RoundTrip
import Harbor.Quack.Uri
import Harbor.Session.WatchdogSound
import Harbor.Routes.SessionList
import Harbor.Routes.SessionIdReaders
import Harbor.Routes.Transactions
import Harbor.Quack.ScanAgain
import Harbor.Quack.Rollback
import Harbor.Quack.ClientPool
import Harbor.Quack.Catalog
import Harbor.Quack.Optimizer
import Harbor.Ui.Events
import Harbor.Ui.LoginPage
import Harbor.Ui.Proxy
import Harbor.Ui.Watcher
import Harbor.Ui.Encoding
import Harbor.Ui.Connections
import Harbor.Quack.Endpoint

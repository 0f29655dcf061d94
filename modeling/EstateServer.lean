import EstateServer.Library.Machine
import EstateServer.Library.Table
import EstateServer.Auth.History
import EstateServer.Auth.TokenKinds
import EstateServer.Auth.Families
import EstateServer.Auth.Revocation
import EstateServer.Auth.UserRow
import EstateServer.Auth.PasswordChange
import EstateServer.Auth.KakaoSignup
import EstateServer.Auth.KakaoResilience
import EstateServer.Auth.Isolation
import EstateServer.Auth.Custody
import EstateServer.Auth.KakaoIdentity
import EstateServer.Auth.Sessions
import EstateServer.RateLimit.Config
import EstateServer.RateLimit.Quota
import EstateServer.Outbox.Accounting
import EstateServer.Outbox.Order
import EstateServer.Outbox.Retry
import EstateServer.Outbox.Execute
import EstateServer.Writers.DualWrite
import EstateServer.Audit.Image
import EstateServer.Notifications.FanOut
import EstateServer.Notifications.Gateway
import EstateServer.Notifications.Pipeline
import EstateServer.Notifications.Redelivery
import EstateServer.Notifications.UnreadCounter
import EstateServer.Notifications.Recipients
import EstateServer.Writers.LikeCounter
import EstateServer.Posts.Coherence
import EstateServer.Posts.Authorization
import EstateServer.Posts.Authorship
import EstateServer.Posts.Deletion
import EstateServer.Leases.EndsOnce
import EstateServer.Invites.Preview
import EstateServer.Invites.SingleUse
import EstateServer.Tenancy.Listings
import EstateServer.Chat.Delivery
import EstateServer.Chat.EnsureRoom
import EstateServer.Chat.Rooms
import EstateServer.Chat.Participants
import EstateServer.Chat.RecentList
import EstateServer.Chat.Sockets
import EstateServer.Chat.Record
import EstateServer.Counters.Ceiling
import EstateServer.Workers.Signals
import EstateServer.Listing

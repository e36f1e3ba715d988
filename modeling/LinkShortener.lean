import LinkShortener.Sessions.Revocation
import LinkShortener.Admin.Authority
import LinkShortener.Admin.SigningIn
import LinkShortener.Accounts.LostUpdates
import LinkShortener.Accounts.AdministratorSet
import LinkShortener.Links.Deduplication
import LinkShortener.Links.MissingRow
import LinkShortener.Races.GuestQuota
import LinkShortener.Races.Resurrection
import LinkShortener.Security.Charts
import LinkShortener.Visits.LateVisits
import LinkShortener.Credentials.SingleUse
import LinkShortener.Credentials.ResetLinks
import LinkShortener.Credentials.AccountRevocation
import LinkShortener.Races.CustomCodes
import LinkShortener.Races.ExpiredLinks
import LinkShortener.Login.FailureBudget
import LinkShortener.Failover.DroppedCalls
import LinkShortener.Failover.Verdict
import LinkShortener.Urls.SameDestination
import LinkShortener.Links.ScopeQueries
import LinkShortener.Links.Collisions
import LinkShortener.Links.ChunkedDeletions
import LinkShortener.Races.GuestLifetimes
import LinkShortener.Charts.Conservation
import LinkShortener.RateLimit.Redis
import LinkShortener.Journals.Pages
import LinkShortener.Logging.NoCredentials
import LinkShortener.Caches.Serialization
import LinkShortener.Caches.Bookkeeping
import LinkShortener.Roles.Idempotence
import LinkShortener.Outages.Reconnection
import LinkShortener.Outages.Dispatch
import LinkShortener.Caches.Tampering
import LinkShortener.Requests.ForgedWrites
import LinkShortener.Registration.Answers
import LinkShortener.Registration.Normalising
import LinkShortener.Races.Handles
import LinkShortener.Requests.Callers
import LinkShortener.Requests.Throttle
import LinkShortener.Visits.Networks

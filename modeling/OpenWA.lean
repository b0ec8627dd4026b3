import OpenWA.Lib.Reach
import OpenWA.Security.Proofs.ChatScope
import OpenWA.Ssrf.Proofs.Blocked
import OpenWA.Ssrf.Proofs.Redirect
import OpenWA.Auth.Proofs.LastAdmin
import OpenWA.Bulk.Proofs.LifeCycle
import OpenWA.Idempotency.Proofs.AtMostOnce
import OpenWA.Pacing.Proofs.Judged
import OpenWA.Send.Proofs.AcceptedSend
import OpenWA.Webhook.Proofs.NoLoss
import OpenWA.Webhook.Proofs.Separate
import OpenWA.WriteScope.Proofs.Fence
import OpenWA.Budget.Proofs.Exact
import OpenWA.Events.Proofs.Fence
import OpenWA.Events.Proofs.Subscriptions
import OpenWA.Identity.Proofs.LidFence
import OpenWA.Ingress.Proofs.Signed
import OpenWA.Ownership.Proofs.Owner
import OpenWA.Plugins.Proofs.HostSecrets
import OpenWA.Concurrency.Proofs.Queue
import OpenWA.Concurrency.Proofs.MutationQueue
import OpenWA.Idempotency.Proofs.Canonical
import OpenWA.Template.Proofs.Length
import OpenWA.Events.Proofs.TokenBucket
import OpenWA.Events.Proofs.SlidingWindow
import OpenWA.Auth.Proofs.KeyIndex
import OpenWA.Auth.Proofs.Usage
import OpenWA.Session.Proofs.ListingMemo
import OpenWA.Session.Proofs.TeardownFence
import OpenWA.Storage.Proofs.OrphanSweep
import OpenWA.Validation.Proofs.BodyNesting
import OpenWA.Identity.Proofs.LidAbsence
import OpenWA.Identity.Proofs.LidDirectory
import OpenWA.Webhook.Proofs.Sweep
import OpenWA.Acks.Proofs.Forward
import OpenWA.Pacing.Proofs.GroupTally
import OpenWA.Message.Proofs.Metadata
import OpenWA.Baileys.Proofs.Preparation
import OpenWA.Search.Proofs.Terms

import MailExpert.AccessSync.Rewrite
import MailExpert.Addresses.LastAdmin
import MailExpert.AliasInbox.OneRule
import MailExpert.BodyParts.Decode
import MailExpert.Codex.Kept
import MailExpert.ConnectionPool.Sound
import MailExpert.Delivery.Merge
import MailExpert.DraftText.Reopened
import MailExpert.Expunge.Sound
import MailExpert.FlagStores.Progress
import MailExpert.Forwarding.Once
import MailExpert.GoogleGrants.CutOff
import MailExpert.Gtd.Counts
import MailExpert.HostValidation.Notation
import MailExpert.ImageCache.Answers
import MailExpert.ImapMoves.Reconcile
import MailExpert.InboxRules.Backtracking
import MailExpert.InboxRules.Counts
import MailExpert.JobQueue.AtMostOnce
import MailExpert.MailNode.OutageClosing
import MailExpert.MailNode.OutageHistory
import MailExpert.MailNode.SeatKept
import MailExpert.MailNode.SeatRequests
import MailExpert.MailNode.SpamRule
import MailExpert.MailQueue.Dump
import MailExpert.MailboxDeletion.Cancel
import MailExpert.MessageList.Dedupe
import MailExpert.MoveQueue.Arrivals
import MailExpert.MoveQueue.Destination
import MailExpert.MoveQueue.Flags
import MailExpert.NodeAgent.OneUpdate
import MailExpert.OAuth.NotRejected
import MailExpert.OAuth.Races
import MailExpert.Oidc.Right
import MailExpert.PostfixLog.Log
import MailExpert.Preferences.LastChoice
import MailExpert.ProtonWorker.Snapshot
import MailExpert.ProtonWorker.UserEvents
import MailExpert.Quarantine.Journal
import MailExpert.Sanitizer.Scanners
import MailExpert.ScreenLock.Held
import MailExpert.Semaphore.Fair
import MailExpert.SendQueue.Delivered
import MailExpert.SendTransport.Fallback
import MailExpert.Sessions.Store
import MailExpert.SignIn.Factors
import MailExpert.SseStream.Whole
import MailExpert.TenantDomains.Converges
import MailExpert.TenantDomains.Runs
import MailExpert.TenantRunner.Answers
import MailExpert.Threading.Arrival
import MailExpert.TraceBudget.Window
import MailExpert.VCard.Values

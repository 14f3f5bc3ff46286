import EraseMe.Email.Inbox
import EraseMe.Storage.StoreRuns
import EraseMe.Batch
import EraseMe.Storage.FixedPoint
import EraseMe.Email.Oauth2Shared
import EraseMe.TaskQueue
import EraseMe.Identity.SavedProfile
import EraseMe.Registry.AllOrNothing
import EraseMe.Email.ImapFetch
import EraseMe.Email.ImapArguments
import EraseMe.Email.Mime
import EraseMe.Redaction.Literal
import EraseMe.Scheduler.CronTable
import EraseMe.Scheduler.Scripts
import EraseMe.Identity.Grant
import EraseMe.Confirmation
import EraseMe.Email.Delivery
import EraseMe.Identity.Canonical
import EraseMe.Identity.ProfileText
import EraseMe.Mcp.ListRequests
import EraseMe.Overdue
import EraseMe.Triage.Cut
import EraseMe.Triage.Review
import EraseMe.Email.UidSets
import EraseMe.Campaign.Templates
import EraseMe.Campaign.ResponseTime
import EraseMe.Email.HeaderParts
import EraseMe.ReportCalendar
import EraseMe.ReportCsv
import EraseMe.ReportTimes
import EraseMe.Migration.Resume

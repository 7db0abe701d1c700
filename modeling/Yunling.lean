import Yunling.Platform.Proofs.TaskQuota
import Yunling.Platform.Proofs.Backing
import Yunling.Platform.Proofs.EventLog
import Yunling.Server.Proofs.Status
import Yunling.Dispatch.Message
import Yunling.Scheduler.Proofs.Score
import Yunling.Scheduler.Proofs.Convergence
import Yunling.Fleet.Proofs.LiveAttempt
import Yunling.Logstream.Proofs.Accounting
import Yunling.Logstream.Proofs.Acceptable
import Yunling.Logstream.Proofs.Text
import Yunling.Logstream.Proofs.Redaction
import Yunling.Logstream.Proofs.Transport
import Yunling.Executor.Proofs.Launch
import Yunling.Agent.Proofs.Cancel
import Yunling.AgentRelease.Proofs.Install
import Yunling.Upgrade.Proofs.Pauses
import Yunling.Upgrade.Proofs.Escape
import Yunling.Upgrade.Proofs.Window
import Yunling.Upgrade.Proofs.Batches
import Yunling.Upgrade.Proofs.Stale
import Yunling.Upgrade.Proofs.Versions
import Yunling.Updater.Proofs.Atomic
import Yunling.Release.Proofs.Record
import Yunling.Ops.Proofs.Mirror
import Yunling.Backup.Proofs.Verification
import Yunling.Backup.Proofs.Holders
import Yunling.Backup.Proofs.Retention
import Yunling.Backup.Schedule
import Yunling.Notification.Outbox
import Yunling.Auth.Proofs.Admins
import Yunling.Task.Proofs.Firings
import Yunling.Task.Proofs.Cron
import Yunling.Task.RunSearch
import Yunling.Script.Proofs.Budget
import Yunling.Secret.Proofs.RunValues
import Yunling.AgentRelease.Proofs.Stage

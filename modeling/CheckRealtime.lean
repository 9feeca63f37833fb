import CheckRealtime.PipelineChanges
import CheckRealtime.PipelineTimes
import CheckRealtime.PipelineAlerts
import CheckRealtime.PipelineKill
import CheckRealtime.PipelineFaults
import CheckRealtime.Machine
import CheckRealtime.FileDb
import CheckRealtime.Scan
import CheckRealtime.Walk
import CheckRealtime.ScanRestart
import CheckRealtime.ScanRace
import CheckRealtime.ScanOrder
import CheckRealtime.ScanExact
import CheckRealtime.Coverage
import CheckRealtime.Checks
import CheckRealtime.Stopping
import CheckRealtime.Threads
import CheckRealtime.MailBytes
import CheckRealtime.MailCut
import CheckRealtime.Alerter
import CheckRealtime.Inotify
import CheckRealtime.Delay
import CheckRealtime.Resources
import CheckRealtime.FileLog
import CheckRealtime.Checksum
import CheckRealtime.Md5
import CheckRealtime.PipelineUpToDate
import CheckRealtime.LoadConfExit
import CheckRealtime.LoadConfUse
import CheckRealtime.ConfigRead

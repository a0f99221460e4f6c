import RoutedCache.Base64
import RoutedCache.Bytes
import RoutedCache.Cache.Lock
import RoutedCache.Cache.Request
import RoutedCache.Cache.Schedule
import RoutedCache.Cache.State
import RoutedCache.Cache.Step
import RoutedCache.Cache.Sweep
import RoutedCache.Config
import RoutedCache.Counters
import RoutedCache.Decimal
import RoutedCache.Disk
import RoutedCache.Document
import RoutedCache.Error
import RoutedCache.Json.Fields
import RoutedCache.Json.Token
import RoutedCache.Json.Value
import RoutedCache.Json.Writer
import RoutedCache.Key
import RoutedCache.KeyMap
import RoutedCache.Log
import RoutedCache.Log.Filter
import RoutedCache.Log.Pattern
import RoutedCache.Log.Pattern.Atom
import RoutedCache.Log.Pattern.Class
import RoutedCache.Main
import RoutedCache.MountTable
import RoutedCache.Path
import RoutedCache.Proofs.Base64
import RoutedCache.Proofs.Cache.Account
import RoutedCache.Proofs.Cache.Answers
import RoutedCache.Proofs.Cache.Background
import RoutedCache.Proofs.Cache.Calls
import RoutedCache.Proofs.Cache.Checks
import RoutedCache.Proofs.Cache.Cleaning
import RoutedCache.Proofs.Cache.Commuting
import RoutedCache.Proofs.Cache.Counting
import RoutedCache.Proofs.Cache.Course
import RoutedCache.Proofs.Cache.Desertion
import RoutedCache.Proofs.Cache.Discipline
import RoutedCache.Proofs.Cache.Doomed
import RoutedCache.Proofs.Cache.Evictions
import RoutedCache.Proofs.Cache.Failures
import RoutedCache.Proofs.Cache.Frame
import RoutedCache.Proofs.Cache.Freshness
import RoutedCache.Proofs.Cache.Inventory
import RoutedCache.Proofs.Cache.Invisible
import RoutedCache.Proofs.Cache.Isolation
import RoutedCache.Proofs.Cache.JobSound
import RoutedCache.Proofs.Cache.Journal
import RoutedCache.Proofs.Cache.Ledger
import RoutedCache.Proofs.Cache.Listings
import RoutedCache.Proofs.Cache.Lives
import RoutedCache.Proofs.Cache.Locks
import RoutedCache.Proofs.Cache.Misses
import RoutedCache.Proofs.Cache.Passes
import RoutedCache.Proofs.Cache.Placement
import RoutedCache.Proofs.Cache.Reads
import RoutedCache.Proofs.Cache.Rounds
import RoutedCache.Proofs.Cache.Routing
import RoutedCache.Proofs.Cache.Serial
import RoutedCache.Proofs.Cache.Serializable
import RoutedCache.Proofs.Cache.Serve
import RoutedCache.Proofs.Cache.Sessions
import RoutedCache.Proofs.Cache.Shutdown
import RoutedCache.Proofs.Cache.Sights
import RoutedCache.Proofs.Cache.SingleUse
import RoutedCache.Proofs.Cache.Stopping
import RoutedCache.Proofs.Cache.Sweeping
import RoutedCache.Proofs.Cache.Touch
import RoutedCache.Proofs.Cache.Tracking
import RoutedCache.Proofs.Cache.Trail
import RoutedCache.Proofs.Cache.Transition
import RoutedCache.Proofs.Cache.Turns
import RoutedCache.Proofs.Cache.UnderWay
import RoutedCache.Proofs.Disk
import RoutedCache.Proofs.Document
import RoutedCache.Proofs.Json.Lexing
import RoutedCache.Proofs.Json.Members
import RoutedCache.Proofs.Json.Spelling
import RoutedCache.Proofs.Json.Structure
import RoutedCache.Proofs.Key
import RoutedCache.Proofs.KeyMap
import RoutedCache.Proofs.Layout
import RoutedCache.Proofs.Metadata
import RoutedCache.Proofs.MountTable
import RoutedCache.Proofs.Payload
import RoutedCache.Proofs.Session.Files
import RoutedCache.Proofs.Session.Restart
import RoutedCache.Proofs.Store.Cells
import RoutedCache.Proofs.Store.Contents
import RoutedCache.Proofs.Store.Documents
import RoutedCache.Proofs.Store.Erasing
import RoutedCache.Proofs.Store.Faithful
import RoutedCache.Proofs.Store.Frame
import RoutedCache.Proofs.Store.Scanning
import RoutedCache.Proofs.Text.Digits
import RoutedCache.Proofs.Text.Utf8
import RoutedCache.Proofs.Time.Calendar
import RoutedCache.Proofs.Time.ReadBack
import RoutedCache.Proofs.TimeToLive
import RoutedCache.Proofs.WriteOption
import RoutedCache.Record
import RoutedCache.Service
import RoutedCache.Session.Run
import RoutedCache.Session.Script
import RoutedCache.Session.State
import RoutedCache.Store
import RoutedCache.Store.Documents
import RoutedCache.Text.Alphanumeric
import RoutedCache.Text.Blank
import RoutedCache.Text.Digits
import RoutedCache.Text.GraphemeExtend
import RoutedCache.Text.Lines
import RoutedCache.Text.Number
import RoutedCache.Text.Quoted
import RoutedCache.Text.Unprintable
import RoutedCache.Time.Clock
import RoutedCache.Time.Date
import RoutedCache.Time.Duration
import RoutedCache.Time.Instant
import RoutedCache.Time.Reader
import RoutedCache.Time.Text
import RoutedCache.WriteOption

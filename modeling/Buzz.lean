import Buzz.Acp.Baseline
import Buzz.Acp.Delivery
import Buzz.Acp.Drain
import Buzz.Acp.Fairness
import Buzz.Acp.Polling
import Buzz.Acp.Representation
import Buzz.Acp.Retry
import Buzz.Acp.SlashCommand
import Buzz.Acp.Usage
import Buzz.Audio.Copies
import Buzz.Audio.Ingress
import Buzz.Audio.OneRoom
import Buzz.Audio.Presence
import Buzz.Audio.Watched
import Buzz.Audio.WoundUp
import Buzz.Audit.Append
import Buzz.Audit.Chain
import Buzz.Audit.Entry
import Buzz.Audit.Log
import Buzz.Audit.Postgres
import Buzz.Audit.Preimage
import Buzz.Audit.Service
import Buzz.Audit.Tampering
import Buzz.Board.Arrival
import Buzz.Board.Cli
import Buzz.Board.Column
import Buzz.Board.Desktop
import Buzz.Board.Drop
import Buzz.Board.Gate
import Buzz.Board.Move
import Buzz.Board.Publish
import Buzz.Board.RankPort
import Buzz.Board.Reconcile
import Buzz.Board.Rendering
import Buzz.Board.Reorder
import Buzz.Board.Update
import Buzz.Db.Convergence
import Buzz.Db.Events
import Buzz.Db.Resurrection
import Buzz.Db.ThreadCounters
import Buzz.Db.ThreadRoots
import Buzz.Deletion.Contract
import Buzz.Deletion.Enumeration
import Buzz.Deletion.Fence
import Buzz.Deletion.Manifest
import Buzz.Deletion.Sound
import Buzz.Deletion.Soundness
import Buzz.Deletion.Stages
import Buzz.Deletion.Tables
import Buzz.Deletion.Transactions
import Buzz.Git.Canonical
import Buzz.Git.History
import Buzz.Git.Perms
import Buzz.Git.RefGrammar
import Buzz.Invite.Claims
import Buzz.Invite.Contract
import Buzz.Invite.Limits
import Buzz.Invite.Sound
import Buzz.Invite.Tables
import Buzz.Lib.Cells
import Buzz.Lib.Census
import Buzz.Lib.Find
import Buzz.Lib.Grow
import Buzz.Lib.Keyed
import Buzz.Lib.Latest
import Buzz.Lib.Locking
import Buzz.Lib.Serial
import Buzz.Lib.Spelled
import Buzz.Lib.Table
import Buzz.Mesh.Delta
import Buzz.Pairing.Agreement
import Buzz.Pairing.Atomicity
import Buzz.Pairing.Qr
import Buzz.PubSub.Interest
import Buzz.Push.Acceptance
import Buzz.Push.Effective
import Buzz.Push.Lease
import Buzz.Push.Outbox
import Buzz.Push.Owed
import Buzz.ReadState.Budget
import Buzz.ReadState.Convergence
import Buzz.ReadState.Format
import Buzz.ReadState.Manager
import Buzz.ReadState.Slots
import Buzz.ReadState.Teardown
import Buzz.ReadState.Trimming
import Buzz.Relay.Count
import Buzz.Relay.CountExact
import Buzz.Relay.CountOnce
import Buzz.Relay.Counters
import Buzz.Relay.FanOut
import Buzz.Relay.History
import Buzz.Relay.NoGap
import Buzz.Relay.Revocation
import Buzz.Replica.Pages
import Buzz.Replica.Timelines
import Buzz.Tunnel.Fencing
import Buzz.Workflow.Conditions
import Buzz.Workflow.Cron
import Buzz.Workflow.Engine
import Buzz.Workflow.Interval
import Buzz.Workflow.Schedule
import Buzz.Workflow.Template

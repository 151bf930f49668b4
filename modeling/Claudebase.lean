import Claudebase.Journal.Report
import Claudebase.Supervisor.Gate
import Claudebase.Supervisor.Delivery
import Claudebase.Telegram.Replies
import Claudebase.Telegram.Pairing
import Claudebase.Telegram.Question
import Claudebase.Registry.Return
import Claudebase.Flow.Layout
import Claudebase.Bus.Teardown
import Claudebase.Pool.Attempts
import Claudebase.Journal.Spacing
import Claudebase.Telegram.Label
import Claudebase.Telegram.Answer
import Claudebase.Store.Vectors
import Claudebase.Journal.Embedding
import Claudebase.Mindmap.Tokens
import Claudebase.Journal.Filing
import Claudebase.Store.Reopen
import Claudebase.Journal.Finished
import Claudebase.Journal.Labels
import Claudebase.Journal.Ranking
import Claudebase.Journal.Window
import Claudebase.Journal.Thin
import Claudebase.Supervisor.LineEditor
import Claudebase.Inbox.Expiry
import Claudebase.Mindmap.RoundTrip
import Claudebase.Chat.Carried
import Claudebase.Supervisor.Frames
import Claudebase.Inbox.Deadline
import Claudebase.Registry.Restore
import Claudebase.Registry.Taken
import Claudebase.Store.Fusion
import Claudebase.Telegram.Holders
import Claudebase.Svg.Apart
import Claudebase.Address.Spelled
import Claudebase.Chat.Rewritten
import Claudebase.Bus.Writer
import Claudebase.Callback.Listener
import Claudebase.Registry.TokenRuns
import Claudebase.Registry.Speaker
import Claudebase.Svg.Live
import Claudebase.Remote.Gate
import Claudebase.Bus.Client
import Claudebase.Input.Decode
import Claudebase.Mindmap.Guard
import Claudebase.Pool.Handshake
import Claudebase.Journal.Program

import Pagnet.Codex.Death
import Pagnet.Codex.Registration
import Pagnet.Console.Prefix
import Pagnet.Continuation.Reopen
import Pagnet.Durable.Queue
import Pagnet.Fabric.Dispatch
import Pagnet.Fabric.Unambiguous
import Pagnet.Federation.Pull
import Pagnet.Inbox.Durable
import Pagnet.Runtime.Batcher
import Pagnet.Sdk.Completed
import Pagnet.Sdk.Forgotten
import Pagnet.Sdk.Handled
import Pagnet.Sdk.Leak
import Pagnet.Search.Map
import Pagnet.Search.Roundtrip
import Pagnet.SessionWorker.Replay
import Pagnet.Textbridge.Budget

import Stomp.Delivery
import Stomp.Subscriptions
import Stomp.Replies
import Stomp.Threads
import Stomp.Login
import Stomp.Blocking
import Stomp.Reactor
import Stomp.ReactorServer
import Stomp.Agreement
import Stomp.Authentication
import Stomp.Isolation
import Stomp.Receipts
import Stomp.Client.Report
import Stomp.ActorThreadPool
import Stomp.SubscriptionCalls
import Stomp.ReadLoops
import Stomp.Closing
import Stomp.History
import Stomp.ReceiptMap
import Stomp.Matching
import Stomp.Client.Summary
import Stomp.Summaries
import Stomp.Endings
import Stomp.Wakeups
import Stomp.WriteQueue
import Stomp.WriteLoop
import Stomp.Parsers
import Stomp.Bodies
import Stomp.Client.Main
import Stomp.Checked
import Stomp.Survival
import Stomp.SubscriptionIds
import Stomp.Splitting
import Stomp.Client.Input
import Stomp.Client.Layout
import Stomp.Layouts
import Stomp.Sends
import Stomp.ActiveUsers
import Stomp.Modes
import Stomp.Wire
import Stomp.Inward
import Stomp.Relay
import Stomp.ReadBuffers
import Stomp.Outstanding
import Stomp.Freeing
import Stomp.Draining
import Stomp.Settling
import Stomp.FileReports

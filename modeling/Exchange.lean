import Exchange.Book.Conserve
import Exchange.Book.Limits
import Exchange.Book.Replay
import Exchange.Book.Requeue
import Exchange.Book.Safety
import Exchange.Book.Shape
import Exchange.Book.Subscripts
import Exchange.Book.Undo
import Exchange.Client.OpenOrders
import Exchange.Client.OrderEntry
import Exchange.Client.Positions
import Exchange.Client.Quotes
import Exchange.Database.AllOrNothing
import Exchange.Database.Backends
import Exchange.Database.Isolation
import Exchange.Database.OpenOrders
import Exchange.Database.Positions
import Exchange.Database.Responses
import Exchange.Database.Restarts
import Exchange.Database.Resume
import Exchange.Database.SQLite
import Exchange.Engine.Crash
import Exchange.Engine.Deployment
import Exchange.Gateway.Align
import Exchange.Gateway.Closing
import Exchange.Gateway.Dropped
import Exchange.Gateway.Filing
import Exchange.Gateway.History
import Exchange.Gateway.Intake
import Exchange.Gateway.Numbering
import Exchange.Gateway.Prices
import Exchange.Gateway.Reach
import Exchange.Gateway.Resent
import Exchange.Gateway.Retry
import Exchange.Gateway.Written
import Exchange.Ipc.Bounds
import Exchange.Ipc.Fifo
import Exchange.Ipc.Places
import Exchange.Ipc.Refusals
import Exchange.Ipc.Seeking
import Exchange.Ipc.Shared
import Exchange.Ipc.Torn
import Exchange.Lib.Channel
import Exchange.Lib.Links
import Exchange.Lib.OrdSet
import Exchange.MarketData.BrokenOff
import Exchange.MarketData.MarketOrders
import Exchange.MarketData.Mirror
import Exchange.MarketData.Opaque
import Exchange.MarketData.Snapshot
import Exchange.MarketData.Subscribers
import Exchange.MarketData.Words
import Exchange.Oracle.Agree
import Exchange.Pool.Attached
import Exchange.Pool.Owners
import Exchange.Requests.FromExecutions
import Exchange.Requests.Generated
import Exchange.Types
import Exchange.Web.Positions
import Exchange.Web.Prices

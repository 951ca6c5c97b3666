import StockExchange.PriceOrder
import StockExchange.ReferenceBook
import StockExchange.LifeCycle
import StockExchange.MatchingEngine
import StockExchange.SharedQueue
import StockExchange.Framing
import StockExchange.Isolation
import StockExchange.Delivery
import StockExchange.FifoSequencer
import StockExchange.Lockstep
import StockExchange.MarketDataPublisher
import StockExchange.LiveFeed
import StockExchange.Recovery
import StockExchange.Exchange
import StockExchange.Ownership
import StockExchange.Quantities
import StockExchange.Priorities
import StockExchange.GatewayCodec
import StockExchange.MulticastConnection
import StockExchange.Reopening
import StockExchange.SortedInsertion
import StockExchange.GreedyMatching
import StockExchange.FeedMirror
import StockExchange.OrderManager
import StockExchange.TradingSystem
import StockExchange.PositionLimit
import StockExchange.BookEdits
import StockExchange.Cancellation
import StockExchange.UnknownOrders
import StockExchange.Modification
import StockExchange.PoolRuns
import StockExchange.Logger
import StockExchange.PositionKeeper
import StockExchange.InDoubt
import StockExchange.BestQuotes
import StockExchange.ResponseSlots
import StockExchange.LossyNetwork
import StockExchange.OrderPath
import StockExchange.Clearing
import StockExchange.Marketplace
import StockExchange.Printing

import T2Bus.Lib.Lts
import T2Bus.Lib.Table
import T2Bus.Lib.Glob
import T2Bus.Lib.Assoc
import T2Bus.Lib.Sublist
import T2Bus.Lib.Cbor
import T2Bus.Lib.Regex
import T2Bus.Topic.Basic
import T2Bus.Err
import T2Bus.Topic.Syntax
import T2Bus.Topic.Segments
import T2Bus.Protocol
import T2Bus.Directory.Basic
import T2Bus.Directory.Contents
import T2Bus.Directory.Flat
import T2Bus.Directory.Matching
import T2Bus.Directory.Lookups
import T2Bus.Directory.Dropped
import T2Bus.Transport.Payload
import T2Bus.Transport.Serde
import T2Bus.Topic.Text
import T2Bus.Transport.CborCodec
import T2Bus.Transport.Length
import T2Bus.Transport.Framing
import T2Bus.Server.Core
import T2Bus.Server.Deliver
import T2Bus.Server.Step
import T2Bus.Server.Acks
import T2Bus.Server.Run
import T2Bus.Server.Count
import T2Bus.Server.Survival
import T2Bus.Server.Publish
import T2Bus.Server.Requests
import T2Bus.Server.Responses
import T2Bus.Server.Forgotten
import T2Bus.Server.Channels
import T2Bus.Server.Published
import T2Bus.Server.Subscribers
import T2Bus.Server.Stored
import T2Bus.Server.Departed
import T2Bus.Server.Replies
import T2Bus.Server.Owners
import T2Bus.Server.Frame
import T2Bus.Server.Relay
import T2Bus.Client.Api
import T2Bus.Client.Core
import T2Bus.Client.Turn
import T2Bus.Client.Session
import T2Bus.Client.Tables
import T2Bus.Client.Calls
import T2Bus.Client.Completions
import T2Bus.Client.Issued
import T2Bus.Client.Posts
import T2Bus.Client.Serving
import T2Bus.Client.Survival
import T2Bus.Client.Subscriptions
import T2Bus.Client.Subscribers
import T2Bus.Client.Unsubscribed
import T2Bus.Client.Fanout
import T2Bus.Client.Fresh
import T2Bus.Client.Forward
import T2Bus.Client.Request
import T2Bus.Client.Outstanding
import T2Bus.Bus.Run
import T2Bus.Bus.Fresh
import T2Bus.Bus.Fifo
import T2Bus.Bus.Lookups
import T2Bus.Bus.Order
import T2Bus.Bus.Replies
import T2Bus.Bus.Receivers
import T2Bus.Bus.Subscriptions
import T2Bus.Cli.Config
import T2Bus.Cli.Registry
import T2Bus.Server.Acknowledged
import T2Bus.Client.Waiting
import T2Bus.Lib.Rank
import T2Bus.Server.Load
import T2Bus.Client.Size
import T2Bus.Bus.Rest
import T2Bus.Bus.Drain
import T2Bus.Server.Registry
import T2Bus.Client.Standing
import T2Bus.Bus.Routes
import T2Bus.Server.Owed
import T2Bus.Bus.Publications
import T2Bus.Server.Timeouts
import T2Bus.Bus.Requests
import T2Bus.Lib.Simulation
import T2Bus.Transport.Wire
import T2Bus.Bus.Queues
import T2Bus.Bus.Framed
import T2Bus.Bus.Services
import T2Bus.Bus.RoundTrip
import T2Bus.Bus.Streams

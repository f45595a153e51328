import HnefServer.Property.Boards
import HnefServer.Property.Lookups
import HnefServer.Property.Membership
import HnefServer.Property.Turns
import HnefServer.Property.Isolation
import HnefServer.Property.Heartbeat
import HnefServer.Property.Reconnect
import HnefServer.Property.Decode
import HnefServer.Property.Names
import HnefServer.Property.Presence
import HnefServer.Property.Passes
import HnefServer.Property.Capacity
import HnefServer.Property.Descriptors
import HnefServer.Property.Exits
import HnefServer.Property.RoomLimit
import HnefServer.Property.Silence
import HnefServer.Property.Pairing
import HnefServer.Property.Moves
import HnefServer.Property.Winners
import HnefServer.Property.Matching
import HnefServer.Property.Receiving
import HnefServer.Property.Sending
import HnefServer.Property.Options
import HnefServer.Property.Visits
import HnefServer.Property.Grammar
import HnefServer.Property.Statistics
import HnefServer.Property.Games
import HnefServer.Property.Mirrors
import HnefServer.Property.Threads
import HnefServer.Property.Symmetry
import HnefServer.Property.Quiet
import HnefServer.Property.Streams
import HnefServer.Property.Books

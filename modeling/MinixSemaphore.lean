import MinixSemaphore.Names.FiniteMap
import MinixSemaphore.Names.Occupancy
import MinixSemaphore.Lists.Session
import MinixSemaphore.Lists.Sorted
import MinixSemaphore.Lists.Cursor
import MinixSemaphore.Lists.Traversal
import MinixSemaphore.Server.Tokens
import MinixSemaphore.Server.Access
import MinixSemaphore.Server.Slots
import MinixSemaphore.Server.Touches
import MinixSemaphore.Server.Order
import MinixSemaphore.Server.Commute
import MinixSemaphore.Server.Unlink
import MinixSemaphore.Server.Inheritance
import MinixSemaphore.Server.Aliases
import MinixSemaphore.Client.Open
import MinixSemaphore.Client.Handle
import MinixSemaphore.Server.Holding
import MinixSemaphore.Server.Nodes
import MinixSemaphore.Server.Levels
import MinixSemaphore.Linux.Balance

import Rsx.Book.PriceOrder
import Rsx.Book.TickChange
import Rsx.Cast.Replication
import Rsx.Matching.TornLog
import Rsx.Risk.Backpressure
import Rsx.Risk.GapDrain
import Rsx.Risk.CrashConsistency
import Rsx.Cast.Gaps
import Rsx.Matching.Loop
import Rsx.Wal.Sender
import Rsx.Wal.ArchiveOnce
import Rsx.Marketdata.Eviction

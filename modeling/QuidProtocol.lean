import QuidProtocol.Bridge.Conservation
import QuidProtocol.Channels.Closing
import QuidProtocol.Channels.Proceeds
import QuidProtocol.Client.Submit
import QuidProtocol.Heartbeat.Rotation
import QuidProtocol.Hop.Rebalance
import QuidProtocol.Keeper.Tick
import QuidProtocol.Pool.Withdraw
import QuidProtocol.Quid.FeeRuns
import QuidProtocol.Quid.Withdraw
import QuidProtocol.Reserve.SeedTranche
import QuidProtocol.Risk.Tail
import QuidProtocol.Rollback.Anchor
import QuidProtocol.Rollback.Queue
import QuidProtocol.Signer.Validating
import QuidProtocol.Sol.Claims
import QuidProtocol.Spv.Inclusion
import QuidProtocol.Spv.MainChain
import QuidProtocol.Spv.Rounding
import QuidProtocol.Stay.Reserved
import QuidProtocol.Stay.Tenure
import QuidProtocol.SwapIn.Credit
import QuidProtocol.Venue.Solvency
import QuidProtocol.Watcher.Record

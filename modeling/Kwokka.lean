import Kwokka.CompletionDrain
import Kwokka.NextExpiry
import Kwokka.IrLookup
import Kwokka.IoDispose
import Kwokka.IoResolve
import Kwokka.SlabRuns
import Kwokka.ParkLap
import Kwokka.BlockOnProof
import Kwokka.AcceptAccount
import Kwokka.RecvOrder
import Kwokka.WakeArm
import Kwokka.BufFreed
import Kwokka.BufReclaim
import Kwokka.TallyCount
import Kwokka.CrewAttached
import Kwokka.RootExit
import Kwokka.CrewShutdown
import Kwokka.SockAddr
import Kwokka.IrFrame
import Kwokka.BumpAllocator
import Kwokka.WorkerIds
import Kwokka.MsgSlot
import Kwokka.RunnableQueue
import Kwokka.SleepArms
import Kwokka.UserData
import Kwokka.MpscSequential
import Kwokka.StealErrand

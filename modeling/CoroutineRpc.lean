import CoroutineRpc.Rpc.Dispatch
import CoroutineRpc.Rpc.SeveralCalls
import CoroutineRpc.Rpc.Address
import CoroutineRpc.Comm.Shutdown
import CoroutineRpc.Coroutine.CoroutinePool
import CoroutineRpc.Net.TimerRuns
import CoroutineRpc.Net.TimerDue
import CoroutineRpc.Net.SwitchRuns
import CoroutineRpc.Net.Tcp.Accept
import CoroutineRpc.Net.Tcp.Closing
import CoroutineRpc.Net.Tcp.Execute
import CoroutineRpc.Net.Tcp.Cleared
import CoroutineRpc.Net.Tcp.Blocking
import CoroutineRpc.Net.Tcp.Undecoded
import CoroutineRpc.Net.Tcp.Ownership
import CoroutineRpc.Net.Tcp.Reuse
import CoroutineRpc.Net.Tcp.CallTimer
import CoroutineRpc.Net.Tcp.Delivered
import CoroutineRpc.Net.Tcp.TimeWheel
import CoroutineRpc.Net.Tcp.Leaked
import CoroutineRpc.Net.Tcp.Hung
import CoroutineRpc.Net.Http.Received
import CoroutineRpc.Net.Http.Grammar
import CoroutineRpc.Net.Http.Injection
import CoroutineRpc.Net.Http.Wedged
import CoroutineRpc.Net.Tcp.Growth
import CoroutineRpc.Net.Http.Routing
import CoroutineRpc.Net.Http.ContentLength
import CoroutineRpc.Comm.SizeLimit
import CoroutineRpc.Comm.Products
import CoroutineRpc.Coroutine.SleepHook
import CoroutineRpc.Rpc.Injective
import CoroutineRpc.Comm.MsgReq
import CoroutineRpc.Net.NetAddress
import CoroutineRpc.Net.FdEventContainer
import CoroutineRpc.Net.Http.HeaderBlock
import CoroutineRpc.Scripts.Servlets
import CoroutineRpc.Scripts.ProtoParsed
import CoroutineRpc.Coroutine.Stacks
import CoroutineRpc.Rpc.RpcChannel
import CoroutineRpc.Net.Http.Serving
import CoroutineRpc.Rpc.Registration
import CoroutineRpc.Scripts.Conf
import CoroutineRpc.Net.Tcp.IoThread

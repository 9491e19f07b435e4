import NgxCpp.Foundation.Exec
import NgxCpp.Foundation.Keeps
import NgxCpp.Foundation.Heap
import NgxCpp.Foundation.Linked
import NgxCpp.Foundation.Runs
import NgxCpp.Foundation.Tombstones
import NgxCpp.Exception
import NgxCpp.NgxSubRequest
import NgxCpp.NgxTimer
import NgxCpp.NgxLoadBalance
import NgxCpp.NdgFilterRun
import NgxCpp.NdgDataHook
import NgxCpp.NdgStreamTime
import NgxCpp.NgxBuf
import NgxCpp.NgxFilter
import NgxCpp.NgxRam
import NgxCpp.NgxResponse
import NgxCpp.NdgEchoHandler
import NgxCpp.NdgEchoFilter
import NgxCpp.NgxSubRequestHandler
import NgxCpp.NgxVariable
import NgxCpp.NdgDataHookCapture
import NgxCpp.NdgFooterHandler
import NgxCpp.NdgFooterRun
import NgxCpp.Foundation.Sim
import NgxCpp.NdgFooterRefinement
import NgxCpp.Foundation.Throws
import NgxCpp.NgxModule
import NgxCpp.NgxDirective
import NgxCpp.NdgVariablesHandler
import NgxCpp.NdgStreamDiscard
import NgxCpp.NdgUpstreamHandler
import NgxCpp.NdgHandlers
import NgxCpp.NdgLoadBalanceTries
import NgxCpp.NdgStreamDiscardRun
import NgxCpp.NgxCallbacks
import NgxCpp.NgxBufWindow
import NgxCpp.NgxClock
import NgxCpp.Foundation.Levels
import NgxCpp.NgxValueMerge
import NgxCpp.Foundation.CString
import NgxCpp.NgxTimerEvent
import NgxCpp.NgxVariableRoundTrip
import NgxCpp.NdgFilterFailure
import NgxCpp.NgxListReach
import NgxCpp.NgxListRange
import NgxCpp.NgxListMerge
import NgxCpp.NgxArray
import NgxCpp.NgxArrayMerge
import NgxCpp.NdgUpstreamResponse
import NgxCpp.NgxChainTraversal
import NgxCpp.NgxChainFree
import NgxCpp.NgxChainData
import NgxCpp.NgxArrayObservers
import NgxCpp.NgxReshape
import NgxCpp.NgxSubRequestQueue
import NgxCpp.Foundation.Regions
import NgxCpp.NgxPalloc
import NgxCpp.NgxAllocator
import NgxCpp.Foundation.Ring
import NgxCpp.NgxQueue
import NgxCpp.NdgSubrequestHandler
import NgxCpp.NgxScript
import NgxCpp.Foundation.SearchTree
import NgxCpp.NgxRbtree
import NgxCpp.Foundation.Interleaving
import NgxCpp.NdgShmemWorkers
import NgxCpp.NdgTestTimers
import NgxCpp.NgxArraySequence
import NgxCpp.Foundation.Hex
import NgxCpp.NgxDigest
import NgxCpp.Foundation.Ensures
import NgxCpp.Foundation.Words
import NgxCpp.NgxPool
import NgxCpp.NgxModuleCtx
import NgxCpp.NgxConfig
import NgxCpp.NdgLocationConf
import NgxCpp.Foundation.Rose
import NgxCpp.NdgServerConf
import NgxCpp.NgxResponseRun
import NgxCpp.NdgVariablesRun
import NgxCpp.NdgUpstreamAttempts
import NgxCpp.Foundation.Shared
import NgxCpp.NgxChainPool
import NgxCpp.NgxChainSequence

import LearningDirectory.NetapiContent
import LearningDirectory.NetapiServer
import LearningDirectory.NetapiHandoff
import LearningDirectory.NetapiDirectory
import LearningDirectory.NetapiSessions
import LearningDirectory.NetapiFraming
import LearningDirectory.HttpTable
import LearningDirectory.HttpLock
import LearningDirectory.HttpTimeout
import LearningDirectory.HttpResponse
import LearningDirectory.FileTransfer
import LearningDirectory.SdrMessages
import LearningDirectory.ChatClient
import LearningDirectory.CsPair
import LearningDirectory.RcvrThreads
import LearningDirectory.ChatInput
import LearningDirectory.ChatReceiver
import LearningDirectory.HttpPartial
import LearningDirectory.HttpReads
import LearningDirectory.HttpWrites
import LearningDirectory.NetapiIsolation
import LearningDirectory.NetapiTruncated
import LearningDirectory.ReceiveLoops
import LearningDirectory.SdrFileLoop
import LearningDirectory.NetapiFields
import LearningDirectory.SystemFunction
import LearningDirectory.NetapiDelivery
import LearningDirectory.NetapiHeartbeat
import LearningDirectory.NetapiSafety
import LearningDirectory.ChatPair
import LearningDirectory.FileProgress
import LearningDirectory.HttpLifecycle
import LearningDirectory.HttpSweep
import LearningDirectory.SdrOvershoot
import LearningDirectory.SystemReaping
import LearningDirectory.HttpProgress
import LearningDirectory.RcvrFiles
import LearningDirectory.SdrSocket
import LearningDirectory.MessagePair

import NovaIde.Foundation.EventRun
import NovaIde.Foundation.SubscriptMap
import NovaIde.Foundation.LastEntry
import NovaIde.Foundation.Splice
import NovaIde.Foundation.Interleaving
import NovaIde.Foundation.Delimited
import NovaIde.Foundation.SqlTokens
import NovaIde.Foundation.CallTrace
import NovaIde.Foundation.RoseTree
import NovaIde.Server.RequestFields
import NovaIde.Server.UsersTable
import NovaIde.Server.AccountHandler
import NovaIde.Server.SessionExchange
import NovaIde.Server.ServerSystem
import NovaIde.Server.RequestEffects
import NovaIde.Server.CodeAuthentication
import NovaIde.Server.CodeReuse
import NovaIde.Server.DatagramBounds
import NovaIde.Server.TableUniqueness
import NovaIde.Server.AccountRefinement
import NovaIde.Server.SuccessReplies
import NovaIde.Server.LoginReplies
import NovaIde.Server.SessionHistory
import NovaIde.Server.SessionConsent
import NovaIde.Server.SessionMatching
import NovaIde.Server.CommandTexts
import NovaIde.Client.UpdateMessage
import NovaIde.Client.Editor
import NovaIde.Client.UpdateReplay
import NovaIde.Client.AnnouncedEdits
import NovaIde.Client.UserEdits
import NovaIde.Client.UpdateEffects
import NovaIde.Client.CaretImages
import NovaIde.Client.SingleWriterReplay
import NovaIde.Client.UpdaterTokens
import NovaIde.Client.EchoTokens
import NovaIde.Client.Transport
import NovaIde.Client.HostPipeline
import NovaIde.Client.ConcurrentEditing
import NovaIde.Client.SessionUpdates
import NovaIde.Client.Convergence
import NovaIde.Client.PeerConnection
import NovaIde.Client.MessageFields
import NovaIde.Client.PeerListener
import NovaIde.Client.SessionRoles
import NovaIde.Client.MemberIdentity
import NovaIde.Client.ListenerFaults
import NovaIde.Client.MemberStreams
import NovaIde.Client.FileTransfer
import NovaIde.Client.WireFormats
import NovaIde.Client.ProjectPaths
import NovaIde.Client.ProjectFiles
import NovaIde.Client.ReceivedFiles
import NovaIde.Client.FileNames
import NovaIde.Client.EditorSteps
import NovaIde.Client.BufferOwnership
import NovaIde.Client.ProjectTransfer
import NovaIde.Client.ProjectSession
import NovaIde.Client.RemovedFiles
import NovaIde.Client.FileTree
import NovaIde.Client.TreeRemoval
import NovaIde.Client.UpdateFrame
import NovaIde.Client.FileExplorer
import NovaIde.Client.SessionThreads
import NovaIde.Client.SharedQueues
import NovaIde.Protocol.ClientRequests
import NovaIde.Protocol.SessionToken
import NovaIde.Protocol.PeerEndpoints
import NovaIde.Protocol.PasswordRecovery
import NovaIde.Protocol.ReplyClassification
import NovaIde.Protocol.Navigation
import NovaIde.Protocol.ClientSystem
import NovaIde.Protocol.SharedAccount
import NovaIde.Protocol.ServerSurvival
import NovaIde.Protocol.SessionStart
import NovaIde.Protocol.SessionNetwork
import NovaIde.Protocol.ChangeOrder
import NovaIde.Protocol.SharedEditing

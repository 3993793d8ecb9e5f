import Cluon.Converter.BadSpecifications
import Cluon.Converter.ForeignData
import Cluon.Converter.Routes
import Cluon.CSV.Header
import Cluon.CSV.Rows
import Cluon.Generic.Identity
import Cluon.Generic.Termination
import Cluon.JSON.Nesting
import Cluon.JSON.Texts
import Cluon.LCM.LCMToGenericMessage
import Cluon.LCM.TypeHash
import Cluon.MsgPack.Codecs
import Cluon.MsgPack.Prefixes
import Cluon.MsgPack.Termination
import Cluon.Network.ByteStream
import Cluon.Pipeline.Delivery
import Cluon.Pipeline.ShutDown
import Cluon.Proto.Agreement
import Cluon.Proto.Inverses
import Cluon.Proto.Keys
import Cluon.Proto.Prefixes
import Cluon.Proto.ReadBytesFromStream
import Cluon.Proto.StandardMeaning
import Cluon.Proto.VarIntLimits
import Cluon.Recording.CacheLevel
import Cluon.Recording.Seeking
import Cluon.Session.OD4Session
import Cluon.Session.TimeTrigger
import Cluon.SharedMemory.Notification
import Cluon.SharedMemory.Processes
import Cluon.SharedMemory.SharedMemory
import Cluon.Specification.Comments
import Cluon.Specification.GeneratedNames
import Cluon.Specification.Mirror
import Cluon.Specification.SyntaxTree
import Cluon.Specification.TypeNames
import Cluon.Tools.CSVFiles
import Cluon.Tools.MessageCompiler
import Cluon.Tools.OD4toJSON
import Cluon.Tools.PlayerCommands
import Cluon.Tools.RecordAndReplay
import Cluon.Tools.ReplayToFilter

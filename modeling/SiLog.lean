import SiLog.Lib.Lts
import SiLog.Lib.Tickets
import SiLog.Lib.Wrap
import SiLog.Lib.BigEndian
import SiLog.Lib.Heap
import SiLog.Lib.Files
import SiLog.Lib.Archive
import SiLog.Lib.Ledger
import SiLog.Lib.Blocks
import SiLog.Lib.Printf
import SiLog.Lib.Slots
import SiLog.Lib.Runs
import SiLog.Lib.Shell
import SiLog.Lib.Relay
import SiLog.Error
import SiLog.Entry
import SiLog.Time
import SiLog.Securec
import SiLog.Securec.Strings
import SiLog.Securec.Token
import SiLog.Mpsc.Model
import SiLog.Mpsc.Invariant
import SiLog.Mpsc.Preserve
import SiLog.Mpsc.Delivery
import SiLog.Mpsc.NoLoss
import SiLog.Mpsc.Sequential
import SiLog.Mpsc.Single
import SiLog.Mpsc.Publish
import SiLog.PQueue.Model
import SiLog.PQueue.Order
import SiLog.PQueue.Contents
import SiLog.Remote.Codec
import SiLog.Remote.Server
import SiLog.Remote.Broadcast
import SiLog.Remote.Accounting
import SiLog.Remote.Threads
import SiLog.Remote.Races
import SiLog.Remote.Serving
import SiLog.Remote.Client
import SiLog.Remote.Link
import SiLog.FileManager.Config
import SiLog.FileManager.Clean
import SiLog.FileManager.Model
import SiLog.FileManager.History
import SiLog.FileManager.Spec
import SiLog.FileManager.Overwrite
import SiLog.FileManager.Conservation
import SiLog.FileManager.Lifecycle
import SiLog.FileManager.Sizes
import SiLog.FileManager.Settings
import SiLog.FileManager.Stems
import SiLog.FileManager.Archive
import SiLog.FileManager.Writes
import SiLog.FileManager.Compress
import SiLog.Ipc.Model
import SiLog.Ipc.Client
import SiLog.Ipc.Setup
import SiLog.Ipc.Descriptors
import SiLog.Logger.Log
import SiLog.Logger.Image
import SiLog.Daemon.Startup
import SiLog.Daemon.Receive
import SiLog.Daemon.Shutdown
import SiLog.Daemon.Setup
import SiLog.Daemon.Service
import SiLog.Daemon.Serving
import SiLog.Daemon.Calls
import SiLog.Daemon.Joins
import SiLog.Daemon.Line
import SiLog.Layout
import SiLog.Prelog
import SiLog.Prelog.Lines
import SiLog.Pipeline.Model
import SiLog.Pipeline.Moves
import SiLog.Pipeline.Order
import SiLog.Pipeline.Passage
import SiLog.Pipeline.Delivery
import SiLog.Cat.Args
import SiLog.Cat.Screen
import SiLog.EndToEnd.Model
import SiLog.EndToEnd.Delivery

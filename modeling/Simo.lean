import Simo.Collection.HandedOut
import Simo.Collection.MachO
import Simo.Collection.ReadExact
import Simo.Collection.SectionTest
import Simo.Core.Clock
import Simo.Core.ExecutionOrder
import Simo.Core.FailedInitialization
import Simo.Core.HeapRepresentation
import Simo.Core.HeapWork
import Simo.Core.LogFiles
import Simo.Core.LogLevels
import Simo.Core.LogRelease
import Simo.Core.Refinement
import Simo.Core.Report
import Simo.Core.RunSplitting
import Simo.Core.Stepping
import Simo.Core.TaskMap
import Simo.Core.TimeUnits
import Simo.Module.Dump
import Simo.Module.Subtrees
import Simo.Port.Callback
import Simo.Port.Contract
import Simo.Port.Mailbox
import Simo.Port.Network
import Simo.SimoSim.Configure
import Simo.SimoSim.DumpParameters
import Simo.SimoSim.Instantiate
import Simo.SimoSim.Main
import Simo.SimoSim.PortListing
import Simo.SimoSim.PrintPorts
import Simo.SimoSim.SearchFiles
import Simo.SimoSim.Wiring
import Simo.Statistics.Windows

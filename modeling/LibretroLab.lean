import LibretroLab.Library.Recorder
import LibretroLab.Library.SuffixCode
import LibretroLab.Library.CString
import LibretroLab.Registry.EntryPoint
import LibretroLab.Registry.GenRegistry
import LibretroLab.Library.CLexer
import LibretroLab.Registry.CoresList
import LibretroLab.Registry.Cores
import LibretroLab.Registry.Reachability
import LibretroLab.Registry.Shim
import LibretroLab.Registry.Linking
import LibretroLab.Host.LoadedFlag
import LibretroLab.Host.LinkedNames
import LibretroLab.Host.Protocol
import LibretroLab.Host.Routing
import LibretroLab.Host.Format
import LibretroLab.Host.FailingStart
import LibretroLab.Host.Lifetime
import LibretroLab.Host.Alike
import LibretroLab.Host.FreshAgain
import LibretroLab.Host.Memory
import LibretroLab.Host.Separation
import LibretroLab.Host.LastStart
import LibretroLab.Host.Settings
import LibretroLab.Host.Conformance
import LibretroLab.Library.Histogram
import LibretroLab.Host.SmokeTest
import LibretroLab.TestRom.Program
import LibretroLab.TestRom.Boot
import LibretroLab.TestRom.Verdict
import LibretroLab.Build.CoreLoop
import LibretroLab.Library.Pipe
import LibretroLab.Build.HidingGate
import LibretroLab.Library.Linker
import LibretroLab.Build.Commons
import LibretroLab.Build.Recipe
import LibretroLab.Build.ModelTools
import LibretroLab.Build.Hiding
import LibretroLab.Build.Success
import LibretroLab.Build.Isolation
import LibretroLab.Build.Archive
import LibretroLab.System.Dispatch

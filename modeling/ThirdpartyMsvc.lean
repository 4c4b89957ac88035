import ThirdpartyMsvc.Launcher.Aliases
import ThirdpartyMsvc.Launcher.Script
import ThirdpartyMsvc.Launcher.Collisions
import ThirdpartyMsvc.Launcher.CmdLine
import ThirdpartyMsvc.Config.Places
import ThirdpartyMsvc.Config.FixUp
import ThirdpartyMsvc.Config.Rebuild
import ThirdpartyMsvc.Fetch.Recover
import ThirdpartyMsvc.Launcher.Rejected
import ThirdpartyMsvc.Launcher.Interrupted
import ThirdpartyMsvc.Launcher.ExportEntry
import ThirdpartyMsvc.Launcher.Launch
import ThirdpartyMsvc.Launcher.Executables
import ThirdpartyMsvc.Launcher.SameLaunchers
import ThirdpartyMsvc.Launcher.Rerun
import ThirdpartyMsvc.Launcher.ExitStatus
import ThirdpartyMsvc.Nexus.AttrName
import ThirdpartyMsvc.Build.Projects
import ThirdpartyMsvc.Patch.Once
import ThirdpartyMsvc.Patch.Marked
import ThirdpartyMsvc.Startup.FindQt
import ThirdpartyMsvc.CMake.BuildOce
import ThirdpartyMsvc.CMake.SzipFound

import Asm2Runtime.Transition
import Asm2Runtime.LinkedChain
import Asm2Runtime.FileRegistry
import Asm2Runtime.FileChains
import Asm2Runtime.FileClose
import Asm2Runtime.LaunchLock
import Asm2Runtime.Lifecycle
import Asm2Runtime.MutexBridge
import Asm2Runtime.MutexOwner
import Asm2Runtime.MutexHandoff
import Asm2Runtime.MutexWaits
import Asm2Runtime.Format
import Asm2Runtime.SharedFile
import Asm2Runtime.SharedCodec
import Asm2Runtime.SharedPreferences
import Asm2Runtime.SharedRoot
import Asm2Runtime.SharedTable
import Asm2Runtime.SharedDurable
import Asm2Runtime.AudioPlayer
import Asm2Runtime.AudioInvariant
import Asm2Runtime.AudioRuns
import Asm2Runtime.AudioStream
import Asm2Runtime.AudioFence
import Asm2Runtime.AudioGeneration
import Asm2Runtime.AudioRecovery
import Asm2Runtime.AudioTeardown
import Asm2Runtime.AudioRelease
import Asm2Runtime.AudioHandoff
import Asm2Runtime.AudioWaits
import Asm2Runtime.AudioProgress
import Asm2Runtime.OnceControl
import Asm2Runtime.OnceSafety
import Asm2Runtime.CrcRegister
import Asm2Runtime.SharedCorruption
import Asm2Runtime.KeyedService
import Asm2Runtime.SharedGuest
import Asm2Runtime.SharedNamespaces
import Asm2Runtime.ElfMeaning
import Asm2Runtime.SharedInstaller
import Asm2Runtime.HandleRegistry
import Asm2Runtime.StaleChain
import Asm2Runtime.HandleInvariant
import Asm2Runtime.HandleLookup
import Asm2Runtime.HandleAccounting
import Asm2Runtime.HandleCreation
import Asm2Runtime.ElfLoad
import Asm2Runtime.InputPump
import Asm2Runtime.InputRelease
import Asm2Runtime.InputTouch
import Asm2Runtime.JniUtf
import Asm2Runtime.Interning
import Asm2Runtime.JniHandles
import Asm2Runtime.JniIntern
import Asm2Runtime.BlockAccess
import Asm2Runtime.KeyedChain
import Asm2Runtime.JniArray
import Asm2Runtime.JniBundle
import Asm2Runtime.JniBridge
import Asm2Runtime.JniInvariant
import Asm2Runtime.JniBundleMap
import Asm2Runtime.JniBundleRuns
import Asm2Runtime.JniKeeps
import Asm2Runtime.JniArrayStorage
import Asm2Runtime.JniStrings
import Asm2Runtime.JniStringMethods
import Asm2Runtime.JniNatives
import Asm2Runtime.AudioPosition
import Asm2Runtime.StreamFlags
import Asm2Runtime.PathBridge
import Asm2Runtime.InputFirstRun
import Asm2Runtime.SharedOpening
import Asm2Runtime.SharedRoundTrip
import Asm2Runtime.StreamDecoder
import Asm2Runtime.DeflateRepair
import Asm2Runtime.ApkExtract
import Asm2Runtime.ApkRebuild
import Asm2Runtime.BlockStream
import Asm2Runtime.Sha256
import Asm2Runtime.CaptureSha
import Asm2Runtime.CaptureDigest
import Asm2Runtime.ShellWords
import Asm2Runtime.ProcessStat
import Asm2Runtime.JniUtfBlock
import Asm2Runtime.ShellNumber
import Asm2Runtime.ElfInterpreter
import Asm2Runtime.CapturePpm
import Asm2Runtime.X86
import Asm2Runtime.X86Setjmp
import Asm2Runtime.X86GlLazy
import Asm2Runtime.X86Startup
import Asm2Runtime.PayloadTransaction
import Asm2Runtime.PayloadRollback
import Asm2Runtime.RelativePath
import Asm2Runtime.PayloadPlan
import Asm2Runtime.PayloadExtract
import Asm2Runtime.AndroidManifest
import Asm2Runtime.AndroidManifestLayout

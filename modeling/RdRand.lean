import RdRand.AesCfgKept
import RdRand.AmountParsing
import RdRand.ArrayLaw
import RdRand.BufferResult
import RdRand.ByteFill
import RdRand.CallComposition
import RdRand.CellSlices
import RdRand.ChunkAccounting
import RdRand.ChunkFreshness
import RdRand.ChunkPipeline
import RdRand.ChunkTermination
import RdRand.CleanAes
import RdRand.CtrDestination
import RdRand.DeviceStream
import RdRand.EncryptedOutput
import RdRand.EncryptingPaths
import RdRand.EncryptionCalls
import RdRand.FileDecryption
import RdRand.FileWrite
import RdRand.FinalNewline
import RdRand.GenerateAmount
import RdRand.KeyBudget
import RdRand.KeyFileFits
import RdRand.KeyFileMemory
import RdRand.KeyFileRoundTrip
import RdRand.KeyFileSafety
import RdRand.KeyLimit
import RdRand.KeyLineDecoding
import RdRand.KeySchedule
import RdRand.KeySettings
import RdRand.KeystreamUse
import RdRand.LibraryMemory
import RdRand.MemoryParts
import RdRand.PipelineWrap
import RdRand.ProgramDelivery
import RdRand.ProgramMemory
import RdRand.ProgramStream
import RdRand.RandomKeys
import RdRand.RejectedKeys
import RdRand.ReseedMethods
import RdRand.ReturnedAmount
import RdRand.SlowPath
import RdRand.StreamOutput
import RdRand.UnkeyedOutput

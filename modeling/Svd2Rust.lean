import Svd2Rust.RustOutcome
import Svd2Rust.OverlapChains
import Svd2Rust.FatalErrors
import Svd2Rust.RustStrings
import Svd2Rust.SliceSearch
import Svd2Rust.SvdModel
import Svd2Rust.ExternalCrates
import Svd2Rust.Identifiers
import Svd2Rust.Accessors
import Svd2Rust.FieldRegions
import Svd2Rust.BlockExpansion
import Svd2Rust.BlockPlacement
import Svd2Rust.AsciiCrates
import Svd2Rust.BlockEmission
import Svd2Rust.RawAccessors
import Svd2Rust.RegionOrder
import Svd2Rust.RegisterNames
import Svd2Rust.DeriveInfos
import Svd2Rust.ImplicitRoots
import Svd2Rust.EnumDecoding
import Svd2Rust.BitFields
import Svd2Rust.GenericRegister
import Svd2Rust.FieldRendering
import Svd2Rust.CheckedSet
import Svd2Rust.FieldAccess
import Svd2Rust.NeutralModify
import Svd2Rust.FieldRoundTrip
import Svd2Rust.ClusterRendering
import Svd2Rust.ReprC
import Svd2Rust.StructLayout
import Svd2Rust.ClusterSizes
import Svd2Rust.AtomicOperations
import Svd2Rust.StorageSizes
import Svd2Rust.TakeOnce
import Svd2Rust.CfgAttributes
import Svd2Rust.DeviceModel
import Svd2Rust.InterruptTable
import Svd2Rust.PeripheralRendering
import Svd2Rust.PeripheralsStruct
import Svd2Rust.PeripheralModules
import Svd2Rust.InterruptOwners
import Svd2Rust.EnumPaths
import Svd2Rust.DeriveLookups
import Svd2Rust.SuccessorChains
import Svd2Rust.RootSearch
import Svd2Rust.FieldRounds
import Svd2Rust.EnumUsage
import Svd2Rust.SafeMarkers
import Svd2Rust.InterruptNumbers
import Svd2Rust.AccessorNames
import Svd2Rust.BaseAddresses
import Svd2Rust.RiscvPeripherals
import Svd2Rust.AvrRendering
import Svd2Rust.AvrUnlock
import Svd2Rust.DescribedRegisters
import Svd2Rust.AvrPaths
import Svd2Rust.DebugImpls
import Svd2Rust.ExpansionTotality
import Svd2Rust.RegisterAccess
import Svd2Rust.EnumCounts
import Svd2Rust.BracketEscapes
import Svd2Rust.PascalNames
import Svd2Rust.IntLiterals
import Svd2Rust.HexLiterals
import Svd2Rust.LegalIdentifiers
import Svd2Rust.VariantMethods
import Svd2Rust.FeatureNames
import Svd2Rust.BlockAddresses
import Svd2Rust.AddressMap
import Svd2Rust.WordCells
import Svd2Rust.RegisterRuns
import Svd2Rust.ModifyRuns
import Svd2Rust.EnumRoundTrip
import Svd2Rust.ByteMemory
import Svd2Rust.DeviceRuns
import Svd2Rust.IdentFormats
import Svd2Rust.RiscvRendering
import Svd2Rust.DeviceFiles
import Svd2Rust.StepRuns
import Svd2Rust.SharedRegister
import Svd2Rust.RegisterTypes
import Svd2Rust.RegisterScope
import Svd2Rust.ProtectedWrites
import Svd2Rust.DerivedReads

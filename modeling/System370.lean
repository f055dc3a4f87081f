import System370.Main
import System370.Proofs.PagedStorage
import System370.Proofs.Sorting
import System370.Proofs.TextImage
import System370.Proofs.ConstantShape
import System370.Proofs.TableInvariant
import System370.Proofs.LayoutInvariant
import System370.Proofs.ProgramLayout
import System370.Proofs.Addresses
import System370.Proofs.LayoutSteps
import System370.Proofs.ErrorMarks
import System370.Proofs.PooledLiterals
import System370.Proofs.RecordRules
import System370.Proofs.GenerationFrame
import System370.Proofs.CollectedCode
import System370.Proofs.AddressConstants
import System370.Proofs.Assembling
import System370.Proofs.ModuleText
import System370.Proofs.Linking
import System370.Proofs.PatchLayout
import System370.Proofs.LinkedTable
import System370.Proofs.LinkedItems
import System370.Proofs.CardContents
import System370.Proofs.DeckRoundTrip
import System370.Proofs.EntryPoint
import System370.Proofs.ModuleReferences
import System370.Proofs.AssembledDeck
import System370.Proofs.PlacedExpressions
import System370.Proofs.BaseDisplacements
import System370.Proofs.EmissionGate
import System370.Proofs.ReusedStorage
import System370.Proofs.ComparedLayouts
import System370.Proofs.RepeatedAssembly
import System370.Proofs.ComparedPrograms
import System370.Proofs.ComparedGenerations
import System370.Proofs.ComparedAssemblies
import System370.Proofs.SourceLines
import System370.Proofs.StatementText
import System370.Proofs.AfterEnd
import System370.Proofs.OpenedSections
import System370.Proofs.TableCalls
import System370.Proofs.SharedStorage
import System370.Proofs.LiteralCalls
import System370.Proofs.EquateRounds
import System370.Proofs.ExpressionMeaning
import System370.Proofs.OperandIndependence
import System370.Proofs.Boundaries
import System370.Proofs.SectionLayout
import System370.Proofs.OperandValues
import System370.Proofs.InstructionFields
import System370.Proofs.ImpliedLengths
import System370.Proofs.OperandSplitting
import System370.Proofs.RegisterCalls
import System370.Proofs.UsingWindows
import System370.Proofs.NominalValues
import System370.Proofs.SectionAddresses
import System370.Proofs.PhysicalLines
import System370.Proofs.OperandPlaces
import System370.Proofs.SourceOffsets
import System370.Proofs.ContinuedFields
import System370.Proofs.ConstantSizes
import System370.Proofs.StorageOperands
import System370.Proofs.GeneratedConstants
import System370.Proofs.PoolLayout
import System370.Proofs.ForeignCards
import System370.Proofs.SequenceNumbers
import System370.Proofs.SharedLiterals
import System370.Proofs.FormalSums
import System370.Proofs.DecimalIntegers
import System370.Proofs.ListScanning
import System370.Proofs.ProgramRecords
import System370.Proofs.ListingContents
import System370.Proofs.UnpairedParentheses

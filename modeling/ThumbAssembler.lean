import ThumbAssembler.Main
import ThumbAssembler.Proofs.BitRange
import ThumbAssembler.Proofs.CharacterClasses
import ThumbAssembler.Proofs.EncodingRoundTrip
import ThumbAssembler.Proofs.FieldLaws
import ThumbAssembler.Proofs.FirstFailure
import ThumbAssembler.Proofs.SoundFormats
import ThumbAssembler.Proofs.FormatTable
import ThumbAssembler.Proofs.TokenText
import ThumbAssembler.Proofs.ParsedInstruction
import ThumbAssembler.Proofs.ParsedProgram
import ThumbAssembler.Proofs.LabelResolution
import ThumbAssembler.Proofs.BranchTargets
import ThumbAssembler.Proofs.NumeralLaws
import ThumbAssembler.Proofs.Verdict
import ThumbAssembler.Proofs.CanonicalText
import ThumbAssembler.Proofs.PlaceErasure
import ThumbAssembler.Proofs.PrintedInstruction
import ThumbAssembler.Proofs.PrintedProgram
import ThumbAssembler.Proofs.ResolvedInstruction
import ThumbAssembler.Proofs.Disassembly
import ThumbAssembler.Proofs.UniqueDecoding
import ThumbAssembler.Proofs.LineReading
import ThumbAssembler.Proofs.Relocation
import ThumbAssembler.Proofs.NoInternalFault
import ThumbAssembler.Proofs.DiagnosticPlaces
import ThumbAssembler.Proofs.ImageContent
import ThumbAssembler.Proofs.LineOutline
import ThumbAssembler.Proofs.InertLines
import ThumbAssembler.Proofs.LinkedProgram
import ThumbAssembler.Proofs.LabelRenaming
import ThumbAssembler.Proofs.ReadingOrder
import ThumbAssembler.Proofs.SessionRuns
import ThumbAssembler.Proofs.ProgramInvariant
import ThumbAssembler.Proofs.ActionRuns
import ThumbAssembler.Proofs.SourceDirectory
import ThumbAssembler.Proofs.DirectoryAssembly
import ThumbAssembler.Proofs.Relinking
import ThumbAssembler.Proofs.InstructionGrammar
import ThumbAssembler.Proofs.LosslessTokens
import ThumbAssembler.Proofs.BranchBias
import ThumbAssembler.Proofs.ImageLayout
import ThumbAssembler.Proofs.ProgramViews
import ThumbAssembler.Proofs.RegisteredFormats
import ThumbAssembler.Proofs.FieldOperations
import ThumbAssembler.Proofs.NumeralReading
import ThumbAssembler.Proofs.SymbolTableRuns
import ThumbAssembler.Proofs.LabelNames

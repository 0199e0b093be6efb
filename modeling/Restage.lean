import Restage.Migration
import Restage.Shape.Migrate
import Restage.Batch
import Restage.Config
import Restage.CommandLine.Run
import Restage.Main
import Restage.Script.Cursor
import Restage.Proofs.BracketWords
import Restage.Proofs.Characters
import Restage.Proofs.DefinitionNames
import Restage.Proofs.DiskFrame
import Restage.Proofs.EmittedLines
import Restage.Proofs.ExportLandmarks
import Restage.Proofs.ExportStage
import Restage.Proofs.Recasting
import Restage.Proofs.SecondRun
import Restage.Proofs.LegacyConversion
import Restage.Proofs.FailedFiles
import Restage.Proofs.FaultlessDisk
import Restage.Proofs.IndependentJobs
import Restage.Proofs.TouchedFiles
import Restage.Proofs.AliasRenaming
import Restage.Proofs.AttachedBody
import Restage.Proofs.ExportMigration
import Restage.Proofs.RepeatedShapes
import Restage.Proofs.SurvivingConstructs
import Restage.Proofs.OutputModes
import Restage.Proofs.StageAttachment
import Restage.Proofs.CarriedWords
import Restage.Proofs.ConversionSplice
import Restage.Proofs.ExportedNames
import Restage.Proofs.StaleExports
import Restage.Proofs.BraceCounts
import Restage.Proofs.SetupExtent
import Restage.Proofs.BracketMates
import Restage.Proofs.ConversionBalance
import Restage.Proofs.HoleForm
import Restage.Proofs.PassOrigins
import Restage.Proofs.ReferenceFixpoint
import Restage.Proofs.InertComments
import Restage.Proofs.SetupWrapping
import Restage.Proofs.StageEntries
import Restage.Proofs.ShapeFileList
import Restage.Proofs.NextStatement
import Restage.Proofs.NestedHoles
import Restage.Proofs.ShapeLayout
import Restage.Proofs.BraceReadings
import Restage.Proofs.BracketVerdict
import Restage.Proofs.CodeCursor
import Restage.Proofs.ConfigVerdicts
import Restage.Proofs.DiffPatch
import Restage.Proofs.SimultaneousEdits

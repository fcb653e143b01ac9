import ScriptDoc.Main
import ScriptDoc.Proofs.Text
import ScriptDoc.Proofs.Notation
import ScriptDoc.Proofs.Grouping
import ScriptDoc.Proofs.LineShape
import ScriptDoc.Proofs.Segmentation
import ScriptDoc.Proofs.RecordShape
import ScriptDoc.Proofs.WellFormed
import ScriptDoc.Proofs.LineNumbers
import ScriptDoc.Proofs.History
import ScriptDoc.Proofs.Concatenation
import ScriptDoc.Proofs.FunctionBinding
import ScriptDoc.Proofs.Decoding
import ScriptDoc.Proofs.Endings
import ScriptDoc.Proofs.HiddenBlocks
import ScriptDoc.Proofs.FileTree
import ScriptDoc.Proofs.ToolkitLaws
import ScriptDoc.Proofs.StandardToolkit
import ScriptDoc.Proofs.Delivery
import ScriptDoc.Proofs.JsonReading
import ScriptDoc.Proofs.Utf8
import ScriptDoc.Proofs.LineEndings
import ScriptDoc.Proofs.ScriptReading
import ScriptDoc.Proofs.WarningSwitches
import ScriptDoc.Proofs.TagBlanks
import ScriptDoc.Proofs.TagText
import ScriptDoc.Proofs.TagLines
import ScriptDoc.Proofs.VerbatimValues
import ScriptDoc.Proofs.CommandLineGrowth
import ScriptDoc.Proofs.SettingsTable
import ScriptDoc.Proofs.NearestSettings
import ScriptDoc.Proofs.SizeLimit
import ScriptDoc.Proofs.SubcommandTokens
import ScriptDoc.Proofs.PrintedLines
import ScriptDoc.Proofs.HelpListing
import ScriptDoc.Proofs.CompletionHandler
import ScriptDoc.Proofs.LineStarts
import ScriptDoc.Proofs.ManPageLayout
import ScriptDoc.Proofs.ManPageRequests
import ScriptDoc.Proofs.ManPageSkeleton
import ScriptDoc.Proofs.FishQuoting
import ScriptDoc.Proofs.CompletionCoverage
import ScriptDoc.Proofs.ZshQuoting
import ScriptDoc.Proofs.ShellWords
import ScriptDoc.Proofs.SetupSnippet
import ScriptDoc.Proofs.SettingsOverrides
import ScriptDoc.Proofs.Escaping
import ScriptDoc.Proofs.FunctionDeclarations

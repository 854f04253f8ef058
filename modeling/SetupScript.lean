import SetupScript.Main
import SetupScript.Proofs.SurvivingCode
import SetupScript.Proofs.LexemeDivision
import SetupScript.Proofs.StatementLevel
import SetupScript.Proofs.CallForms
import SetupScript.Proofs.DeclarationForms
import SetupScript.Proofs.AssignedCalls
import SetupScript.Proofs.DeclaredNames
import SetupScript.Proofs.EmittedTexts
import SetupScript.Proofs.StrictRuns
import SetupScript.Proofs.RepeatedDeclarations
import SetupScript.Proofs.DefinedProps
import SetupScript.Proofs.SectionAssembly
import SetupScript.Proofs.CodeWords
import SetupScript.Proofs.Delegation
import SetupScript.Proofs.ReturnedNames
import SetupScript.Proofs.AsyncSetup
import SetupScript.Proofs.KeptCharacters
import SetupScript.Proofs.DiskPaths
import SetupScript.Proofs.DiskChanges
import SetupScript.Proofs.CommandTools
import SetupScript.Proofs.Verbosity
import SetupScript.Proofs.PreparedRuns
import SetupScript.Proofs.WrittenFiles
import SetupScript.Proofs.NestedText
import SetupScript.Proofs.PatternTrees
import SetupScript.Proofs.ExtractedRegions
import SetupScript.Proofs.LocatedCalls
import SetupScript.Proofs.GappedText
import SetupScript.Proofs.GappedPatterns
import SetupScript.Proofs.GappedBindings
import SetupScript.Proofs.StatementLeads
import SetupScript.Proofs.SpacedComments
import SetupScript.Proofs.ArgumentLists
import SetupScript.Proofs.SimultaneousEdits
import SetupScript.Proofs.CommaSplitters
import SetupScript.Proofs.CommutingPasses
import SetupScript.Proofs.StatementWindow
import SetupScript.Proofs.ReplacedForms
import SetupScript.Proofs.ModuleStatements
import SetupScript.Proofs.RewrittenLines
import SetupScript.Proofs.ExportLists
import SetupScript.Proofs.SkippedCalls
import SetupScript.Proofs.CausalScans
import SetupScript.Proofs.FreeCalls
import SetupScript.Proofs.PlacedNames
import SetupScript.Proofs.ExpandedTags

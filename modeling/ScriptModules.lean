import ScriptModules.ConvertedText
import ScriptModules.Main
import ScriptModules.Proofs.Converter.Links
import ScriptModules.Proofs.Export.RoundTrip
import ScriptModules.Proofs.Rule.NamespaceFree
import ScriptModules.Proofs.Script.Lexeme
import ScriptModules.Proofs.Script.Rescan
import ScriptModules.Proofs.Converter.Effect
import ScriptModules.Proofs.Converter.History
import ScriptModules.Proofs.Converter.InputOrder
import ScriptModules.Proofs.Converter.Accounting
import ScriptModules.Proofs.Import.RoundTrip
import ScriptModules.Proofs.Converter.SecondRun
import ScriptModules.Proofs.Rule.ExportLists
import ScriptModules.Proofs.Export.PublicNames
import ScriptModules.Proofs.Export.Assembled
import ScriptModules.Proofs.Rule.ImportLines
import ScriptModules.Proofs.Rule.Unwrapping
import ScriptModules.Proofs.Rule.Wrapping
import ScriptModules.Proofs.Converter.Destinations
import ScriptModules.Proofs.Options.Loading
import ScriptModules.Proofs.CommandLine.Ending
import ScriptModules.Proofs.Rule.NamespacePass
import ScriptModules.Proofs.Rule.Declarations
import ScriptModules.Proofs.Rule.Chains
import ScriptModules.Proofs.Rule.Nesting
import ScriptModules.Proofs.Import.Layout
import ScriptModules.Proofs.Import.References
import ScriptModules.Proofs.Rule.SelfDeclarations
import ScriptModules.Proofs.Discovery.Enumeration
import ScriptModules.Proofs.Export.ObjectLiteral
import ScriptModules.Proofs.Export.DeclaredMembers
import ScriptModules.Proofs.Options.FieldChecks
import ScriptModules.Proofs.Options.Override

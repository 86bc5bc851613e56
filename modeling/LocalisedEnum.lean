import LocalisedEnum.Main
import LocalisedEnum.Proofs.Pass.Coverage
import LocalisedEnum.Proofs.Declaration.Printing
import LocalisedEnum.Proofs.Extension.ReadBack
import LocalisedEnum.Proofs.Extension.MethodMeaning
import LocalisedEnum.Proofs.Pass.ReservedWords
import LocalisedEnum.Proofs.Declaration.GlobalSections
import LocalisedEnum.Proofs.Declaration.Braces
import LocalisedEnum.Proofs.Declaration.Evaluated
import LocalisedEnum.Proofs.Pass.AbsoluteNames
import LocalisedEnum.Proofs.Pass.FileOrder
import LocalisedEnum.Proofs.Run.Convergence
import LocalisedEnum.Proofs.Run.Agreement
import LocalisedEnum.Proofs.Run.Footprint
import LocalisedEnum.Proofs.Run.Endings
import LocalisedEnum.Proofs.Declaration.Respacing
import LocalisedEnum.Proofs.Pass.MethodNames
import LocalisedEnum.Proofs.Declaration.Names
import LocalisedEnum.Proofs.Pass.Entries
import LocalisedEnum.Proofs.Pass.MarkedNames
import LocalisedEnum.Proofs.Localisation.Bindings
import LocalisedEnum.Proofs.Pass.MoreProperties
import LocalisedEnum.Proofs.Declaration.Locations
import LocalisedEnum.Proofs.Run.DiagnosticLines
import LocalisedEnum.Proofs.Localisation.TemplateGrammar
import LocalisedEnum.Proofs.Pass.LookupOrder
import LocalisedEnum.Proofs.Declaration.AttributedTree
import LocalisedEnum.Proofs.Declaration.TextSums
import LocalisedEnum.Proofs.Declaration.AngleBrackets
import LocalisedEnum.Proofs.Declaration.MemberBodies
import LocalisedEnum.Proofs.Pass.BoundConstants
import LocalisedEnum.Proofs.FileTree.ListedSources
import LocalisedEnum.Proofs.Pass.ShownOrder
import LocalisedEnum.Proofs.Declaration.Progress
import LocalisedEnum.Proofs.Pass.MergedTypes
import LocalisedEnum.Proofs.Number.IntegerLiterals

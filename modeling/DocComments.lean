import DocComments.Declaration.Member
import DocComments.Main
import DocComments.Proofs.Constructors
import DocComments.Proofs.Extraction
import DocComments.Proofs.Blocks
import DocComments.Proofs.JsonGrammar
import DocComments.Proofs.LinkEffect
import DocComments.Proofs.SourceOrder
import DocComments.Proofs.NestedNames
import DocComments.Proofs.TypeGrammar
import DocComments.Proofs.TypeReading
import DocComments.Proofs.Ancestry
import DocComments.Proofs.DeclaredTypes
import DocComments.Proofs.Independence
import DocComments.Proofs.JsonReading
import DocComments.Proofs.JsonDecoding
import DocComments.Proofs.Exports
import DocComments.Proofs.NormalTypes
import DocComments.Proofs.Gathering
import DocComments.Proofs.Subtrees
import DocComments.Proofs.SingleComments
import DocComments.Proofs.Columns
import DocComments.Proofs.Reindenting
import DocComments.Proofs.TypeCompletion
import DocComments.Proofs.TypeLookahead
import DocComments.Proofs.TypeErrors
import DocComments.Proofs.LineClasses
import DocComments.Proofs.LinkFailure
import DocComments.Proofs.ImpliedClasses
import DocComments.Proofs.FieldHosts
import DocComments.Proofs.LongestLexemes
import DocComments.Proofs.Respacing
import DocComments.Proofs.Innermost
import DocComments.Proofs.NameFilling
import DocComments.Proofs.OutlineProgress
import DocComments.Proofs.TypeDepth
import DocComments.Proofs.TypeLocality

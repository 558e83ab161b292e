import FilterSql.Compiler
import FilterSql.Filter.Decode
import FilterSql.Named.Positional
import FilterSql.Template.Step
import FilterSql.Wire.Encode
import FilterSql.Proofs.Parts
import FilterSql.Proofs.QuotedSpans
import FilterSql.Proofs.Scan
import FilterSql.Proofs.Tokens
import FilterSql.Proofs.FilterPieces
import FilterSql.Proofs.FilterNesting
import FilterSql.Proofs.FilterTests
import FilterSql.Proofs.StatementPieces
import FilterSql.Proofs.LimitText
import FilterSql.Proofs.StatementText
import FilterSql.Proofs.FilterShape
import FilterSql.Proofs.StatementShape
import FilterSql.Proofs.BoundValues
import FilterSql.Proofs.BooleanText
import FilterSql.Proofs.FilterMeaning
import FilterSql.Proofs.BooleanOperands
import FilterSql.Proofs.FilterReading
import FilterSql.Proofs.StatementValues
import FilterSql.Proofs.SlotText
import FilterSql.Proofs.Interleaving
import FilterSql.Proofs.Operands
import FilterSql.Proofs.PhrasedText
import FilterSql.Proofs.Numerals
import FilterSql.Proofs.ParamIds
import FilterSql.Proofs.Occurrences
import FilterSql.Proofs.WovenText
import FilterSql.Proofs.PlainText
import FilterSql.Proofs.BindingSearch
import FilterSql.Proofs.LedValues
import FilterSql.Proofs.SettledBindings
import FilterSql.Proofs.SpreadArrays
import FilterSql.Proofs.Substituted
import FilterSql.Proofs.PositionalText
import FilterSql.Proofs.ByteOrder
import FilterSql.Proofs.Renumbered
import FilterSql.Proofs.ErasedNames
import FilterSql.Proofs.PlaceholderNames
import FilterSql.Proofs.RewrittenAgain
import FilterSql.Proofs.SharedNames
import FilterSql.Proofs.NamedLeaves
import FilterSql.Proofs.RefusedAlike
import FilterSql.Proofs.KeptTail
import FilterSql.Proofs.ClauseText
import FilterSql.Proofs.SpanwiseText
import FilterSql.Proofs.NamedClauses
import FilterSql.Proofs.TupleSlots
import FilterSql.Proofs.DistinctTexts
import FilterSql.Proofs.InsertedRows
import FilterSql.Proofs.AlignedRows
import FilterSql.Proofs.StyledText
import FilterSql.Proofs.FilteredMutations
import FilterSql.Proofs.GroupWords
import FilterSql.Proofs.JsonForms
import FilterSql.Proofs.FilterDecoding
import FilterSql.Proofs.DistinctMembers
import FilterSql.Proofs.DistinctKeys
import FilterSql.Proofs.TemplateStrands
import FilterSql.Proofs.FilterOutputs
import FilterSql.Proofs.TemplateRuns
import FilterSql.Proofs.CharLanguages
import FilterSql.Proofs.LimitGrammar
import FilterSql.Proofs.OrderTerms
import FilterSql.Proofs.InstantText
import FilterSql.Proofs.DateSentinels
import FilterSql.Proofs.ByteSpans
import FilterSql.Proofs.BytewiseScan
import FilterSql.Proofs.FirstError
import FilterSql.Proofs.BigEndian
import FilterSql.Proofs.IntegerBinding
import FilterSql.Proofs.DateBinding
import FilterSql.Proofs.ArrayBinding
import FilterSql.Proofs.Assignments
import FilterSql.Proofs.IgnoredKeys
import FilterSql.Proofs.QuotedNames
import FilterSql.Proofs.RereadValues
import FilterSql.Proofs.TruncatedText
